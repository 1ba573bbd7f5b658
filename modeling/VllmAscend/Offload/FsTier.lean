import Mathlib.Data.Finset.Basic

/-!
# The file-system tier

`store_block` and `load_block` of `fs_tier.py`, one system call at a time. A
block is written to a temporary file and moved to its destination by
`os.replace`, so no thread writes to a file that a load can open, as long as no
two threads draw the same suffix for their temporary files.
-/

namespace VllmAscend.FsTier

open List Function

inductive Path where
  | dest (key : Nat)
  | tmp (key suffix : Nat)
deriving DecidableEq

/-- Where a thread is. It is `removing` a file when an exception is raised. -/
inductive Pc where
  | idle
  | checking (key : Nat) (data : List UInt8)
  | opening (key : Nat) (data : List UInt8)
  | writing (key : Nat) (data : List UInt8) (fd written : Nat)
  | replacing (key : Nat)
  | removing (path : Path)
  | openingSource (key blockSize : Nat)
  | reading (key blockSize fd : Nat) (view : List UInt8)
  | loaded (key blockSize : Nat) (view : List UInt8)

def Pc.Writes : Pc → Nat → Prop
  | .writing _ _ fd _, i => fd = i
  | _, _ => False

/-- After a system call that failed; the second `os.open` stands for a first that found no directory. -/
def Pc.failed (tmpSuffix : Nat) : Pc → Pc
  | .checking key data => .opening key data
  | .opening key _ | .writing key .. | .replacing key => .removing (.tmp key tmpSuffix)
  | .openingSource key _ => .removing (.dest key)
  | .reading key blockSize _ view => if view.length < blockSize then .removing (.dest key) else .idle
  | .removing _ => .idle
  | pc => pc

structure World where
  inodes : Nat → List UInt8 := fun _ => []
  nextInode : Nat := 0
  files : Path → Option Nat := fun _ => none
  threads : Nat → Pc := fun _ => .idle

/-- A call of a thread, the result of its system call (`none` for an error, or how many bytes it moves at most), or
its end. -/
inductive Event where
  | storeBlock (key : Nat) (data : List UInt8)
  | loadBlock (key blockSize : Nat)
  | result (count : Option Nat)
  | kill

namespace World

-- what `_get_tmp_suffix` drew in each thread
variable (tmpSuffix : Nat → Nat)

def goto (w : World) (t : Nat) (pc : Pc) : World := { w with threads := update w.threads t pc }

def fail (w : World) (t : Nat) : World := w.goto t ((w.threads t).failed (tmpSuffix t))

def resume (w : World) (t n : Nat) : World :=
  match w.threads t with
  | .checking key data => if (w.files (.dest key)).isSome then w.goto t .idle else w.goto t (.opening key data)
  | .opening key data =>
    -- the flags have `O_EXCL`
    if (w.files (.tmp key (tmpSuffix t))).isSome then w.fail tmpSuffix t
    else
      { w.goto t (.writing key data w.nextInode 0) with
        inodes := update w.inodes w.nextInode []
        nextInode := w.nextInode + 1
        files := update w.files (.tmp key (tmpSuffix t)) (some w.nextInode) }
  | .writing key data fd written =>
    if written < data.length then
      if n = 0 then w.fail tmpSuffix t
      else
        let bytes := (data.drop written).take n
        let content := w.inodes fd
        { w.goto t (.writing key data fd (written + bytes.length)) with
          inodes := update w.inodes fd (content.take written ++ bytes ++ content.drop (written + bytes.length)) }
    else w.goto t (.replacing key)
  | .replacing key =>
    match w.files (.tmp key (tmpSuffix t)) with
    | some fd => { w.goto t .idle with files := update (update w.files (.tmp key (tmpSuffix t)) none) (.dest key) (some fd) }
    | none => w.fail tmpSuffix t
  | .removing path => { w.goto t .idle with files := update w.files path none }
  | .openingSource key blockSize =>
    match w.files (.dest key) with
    | some fd => w.goto t (.reading key blockSize fd [])
    | none => w.fail tmpSuffix t
  | .reading key blockSize fd view =>
    if view.length < blockSize then
      let bytes := ((w.inodes fd).drop view.length).take (min n (blockSize - view.length))
      if bytes = [] then w.fail tmpSuffix t else w.goto t (.reading key blockSize fd (view ++ bytes))
    else w.goto t (.loaded key blockSize view)
  | _ => w

def step (w : World) (e : Nat × Event) : World :=
  match e.2, w.threads e.1 with
  | .result none, _ => w.fail tmpSuffix e.1
  | .result (some n), _ => w.resume tmpSuffix e.1 n
  | .kill, _ => w.goto e.1 .idle
  | .storeBlock key data, .idle | .storeBlock key data, .loaded .. => w.goto e.1 (.checking key data)
  | .loadBlock key blockSize, .idle | .loadBlock key blockSize, .loaded .. => w.goto e.1 (.openingSource key blockSize)
  | _, _ => w

end World

/-- Destinations hold whole blocks, and loads return such. -/
structure Atomic (stores : Nat → List UInt8 → Prop) (w : World) : Prop where
  dest : ∀ key i, w.files (.dest key) = some i → stores key (w.inodes i)
  loaded : ∀ t key blockSize view, w.threads t = .loaded key blockSize view →
    ∃ data, stores key data ∧ view = data.take blockSize ∧ view.length = blockSize

/-! ## Files that are no longer written -/

section
variable {stores : Nat → List UInt8 → Prop} {tmpSuffix : Nat → Nat} {w w' : World} {key t t' i : Nat} {pc : Pc}

structure Sealed (stores : Nat → List UInt8 → Prop) (w : World) (key i : Nat) : Prop where
  lt : i < w.nextInode
  unwritten : ∀ t, ¬ (w.threads t).Writes i
  block : stores key (w.inodes i)

def ThreadOk (stores : Nat → List UInt8 → Prop) (tmpSuffix : Nat → Nat) (w : World) (t : Nat) : Pc → Prop
  | .checking key data | .opening key data => stores key data
  | .writing key data fd written => stores key data ∧ w.files (.tmp key (tmpSuffix t)) = some fd ∧ fd < w.nextInode ∧
      w.inodes fd = data.take written
  | .replacing key => ∀ i, w.files (.tmp key (tmpSuffix t)) = some i → Sealed stores w key i
  | .removing path => ∀ key t', t' ≠ t → .tmp key (tmpSuffix t') ≠ path
  | .reading key blockSize fd view => Sealed stores w key fd ∧ view <+: w.inodes fd ∧ view.length ≤ blockSize
  | .loaded key blockSize view => ∃ data, stores key data ∧ view = data.take blockSize ∧ view.length = blockSize
  | _ => True

structure Inv (stores : Nat → List UInt8 → Prop) (tmpSuffix : Nat → Nat) (w : World) : Prop where
  sole : ∀ t t' i, (w.threads t).Writes i → (w.threads t').Writes i → t = t'
  dest : ∀ key i, w.files (.dest key) = some i → Sealed stores w key i
  threads : ∀ t, ThreadOk stores tmpSuffix w t (w.threads t)

/-- What a step of thread `t` leaves alone. -/
structure Frame (tmpSuffix : Nat → Nat) (t : Nat) (w w' : World) : Prop where
  next : w.nextInode ≤ w'.nextInode
  files : ∀ key t', t' ≠ t → w'.files (.tmp key (tmpSuffix t')) = w.files (.tmp key (tmpSuffix t'))
  inodes : ∀ i < w.nextInode, ¬ (w.threads t).Writes i → w'.inodes i = w.inodes i
  threads : ∀ t', t' ≠ t → w'.threads t' = w.threads t'
  writes : ∀ i, (w'.threads t).Writes i → (w.threads t).Writes i ∨ w.nextInode ≤ i

theorem Frame.writes_of_lt (hf : Frame tmpSuffix t w w') (hi : i < w.nextInode) (hw : (w'.threads t').Writes i) :
    (w.threads t').Writes i := by
  by_cases ht : t' = t
  · subst ht
    exact (hf.writes i hw).resolve_right (Nat.not_le.mpr hi)
  · rwa [← hf.threads t' ht]

theorem Sealed.frame (h : Sealed stores w key i) (hf : Frame tmpSuffix t w w') : Sealed stores w' key i where
  lt := h.lt.trans_le hf.next
  unwritten t' hw := h.unwritten t' (hf.writes_of_lt h.lt hw)
  block := (congrArg _ (hf.inodes i h.lt (h.unwritten t))).mpr h.block

variable (h : Inv stores tmpSuffix w)
include h

theorem ThreadOk.frame (hf : Frame tmpSuffix t w w') (ht : t' ≠ t) : ThreadOk stores tmpSuffix w' t' (w.threads t') := by
  have ho := h.threads t'
  have hs := h.sole t' t
  cases hpc : w.threads t' with
  | writing k d fd n =>
    rw [hpc] at ho hs
    obtain ⟨hd, hk, hlt, hi⟩ := ho
    exact ⟨hd, (hf.files k t' ht).trans hk, hlt.trans_le hf.next, (hf.inodes fd hlt fun hw => ht (hs fd rfl hw)).trans hi⟩
  | replacing k =>
    rw [hpc] at ho
    intro i hk
    rw [hf.files k t' ht] at hk
    exact (ho i hk).frame hf
  | reading k b fd view =>
    rw [hpc] at ho
    exact ⟨ho.1.frame hf, (congrArg _ (hf.inodes fd ho.1.lt (ho.1.unwritten t))).mpr ho.2.1, ho.2.2⟩
  | _ => rw [hpc] at ho; exact ho

theorem Inv.frame (hf : Frame tmpSuffix t w w') (ht : ThreadOk stores tmpSuffix w' t (w'.threads t))
    (hd : ∀ k i, w'.files (.dest k) = some i → Sealed stores w k i) : Inv stores tmpSuffix w' := by
  refine ⟨fun t1 t2 i h1 h2 => ?_, fun k i hk => (hd k i hk).frame hf, fun t' => ?_⟩
  · by_cases hi : i < w.nextInode
    · exact h.sole t1 t2 i (hf.writes_of_lt hi h1) (hf.writes_of_lt hi h2)
    -- only `t` writes to a new file
    have hn : ∀ t', (w'.threads t').Writes i → t' = t := fun t' hw => by_contra fun hne => by
      have ho := h.threads t'
      rw [hf.threads t' hne] at hw
      cases hpc : w.threads t' with
      | writing k d fd n =>
        rw [hpc] at ho hw
        exact hi (hw ▸ ho.2.2.1)
      | _ => rw [hpc] at hw; exact hw
    rw [hn t1 h1, hn t2 h2]
  · by_cases he : t' = t
    · exact he ▸ ht
    · rw [hf.threads t' he]
      exact ThreadOk.frame h hf he

/-! ## One step -/

theorem Inv.move {files : Path → Option Nat} (hk : ∀ k t', t' ≠ t → files (.tmp k (tmpSuffix t')) = w.files (.tmp k (tmpSuffix t')))
    (hd : ∀ k i, files (.dest k) = some i → Sealed stores w k i) (hw : ∀ i, ¬ pc.Writes i)
    (hp : Frame tmpSuffix t w { w.goto t pc with files } → ThreadOk stores tmpSuffix { w.goto t pc with files } t pc) :
    Inv stores tmpSuffix { w.goto t pc with files } := by
  have hpc : ({ w.goto t pc with files } : World).threads t = pc := update_self ..
  have hf : Frame tmpSuffix t w { w.goto t pc with files } :=
    ⟨le_rfl, hk, fun _ _ _ => rfl, fun t' ht => update_of_ne ht _ _, fun i hi => absurd (hpc ▸ hi) (hw i)⟩
  exact h.frame hf (hpc.symm ▸ hp hf) hd

theorem Inv.goto (hw : ∀ i, ¬ pc.Writes i) (hp : Frame tmpSuffix t w (w.goto t pc) → ThreadOk stores tmpSuffix (w.goto t pc) t pc) :
    Inv stores tmpSuffix (w.goto t pc) :=
  h.move (fun _ _ _ => rfl) h.dest hw hp

theorem Inv.fail (hinj : Injective tmpSuffix) (t : Nat) : Inv stores tmpSuffix (w.fail tmpSuffix t) := by
  have ht := h.threads t
  unfold World.fail Pc.failed
  cases hpc : w.threads t with
  | checking k d =>
    rw [hpc] at ht
    exact h.goto (fun _ => id) fun _ => ht
  | reading k b fd view =>
    simp only
    split
    · exact h.goto (fun _ => id) fun _ _ _ _ => by simp
    · exact h.goto (fun _ => id) fun _ => trivial
  | loaded k b view =>
    rw [hpc] at ht
    exact h.goto (fun _ => id) fun _ => ht
  | openingSource k b => exact h.goto (fun _ => id) fun _ _ _ _ => by simp
  | idle => exact h.goto (fun _ => id) fun _ => trivial
  | removing path => exact h.goto (fun _ => id) fun _ => trivial
  | _ => exact h.goto (fun _ => id) fun _ k t' hne he => hne (hinj (Path.tmp.inj he).2)

theorem Inv.resume (hinj : Injective tmpSuffix) (t n : Nat) : Inv stores tmpSuffix (w.resume tmpSuffix t n) := by
  have ht := h.threads t
  have hso := fun t' => h.sole t' t
  unfold World.resume
  cases hpc : w.threads t with
  | checking k d =>
    rw [hpc] at ht
    simp only
    split
    · exact h.goto (fun _ => id) fun _ => trivial
    · exact h.goto (fun _ => id) fun _ => ht
  | opening k d =>
    rw [hpc] at ht
    simp only
    split
    · exact h.fail hinj t
    · refine h.frame (t := t) ⟨Nat.le_succ _, fun k t' hne => update_of_ne (by simp [hinj.ne hne]) _ _,
        fun i hi _ => update_of_ne hi.ne _ _, fun t' hne => update_of_ne hne _ _, fun i hi => .inr ?_⟩ ?_
        fun k i hk => h.dest k i ?_
      · simp only [World.goto, update_self] at hi
        exact hi.le
      · simpa [World.goto, ThreadOk] using ht
      · simpa [World.goto] using hk
  | writing k d fd m =>
    rw [hpc] at ht hso
    obtain ⟨hs, hfd, hlt, hd⟩ := ht
    simp only
    split
    · next hw =>
      split
      · exact h.fail hinj t
      refine h.frame (t := t) ⟨le_rfl, fun _ _ _ => rfl, fun i _ hi => update_of_ne (fun he => hi ?_) _ _,
        fun t' hne => update_of_ne hne _ _, fun i hi => .inl ?_⟩ ?_ h.dest
      · rw [hpc]
        exact he.symm
      · rw [hpc]
        simp only [World.goto, update_self] at hi
        exact hi
      · have hlen : (d.take m).length = m := length_take_of_le hw.le
        simp only [World.goto, update_self]
        refine ⟨hs, hfd, hlt, ?_⟩
        simp only [update_self, hd]
        generalize hb : (d.drop m).take n = bytes
        have hpre : bytes = (d.drop m).take bytes.length := prefix_iff_eq_take.mp (hb ▸ take_prefix ..)
        rw [take_of_length_le hlen.le, drop_of_length_le (by omega), append_nil, take_add, ← hpre]
    · next hw =>
      refine h.goto (fun _ => id) fun hf i hi => ?_
      cases hfd.symm.trans hi
      refine ⟨hlt, fun t' hw' => ?_, ?_⟩
      · have he := hso t' fd (hf.writes_of_lt hlt hw') rfl
        subst he
        simp only [World.goto, update_self] at hw'
        exact hw'
      · rw [take_of_length_le (not_lt.mp hw)] at hd
        exact (congrArg (stores k) hd).mpr hs
  | replacing key =>
    rw [hpc] at ht
    simp only
    split
    · next hfd =>
      refine h.move (fun k t' hne => ?_) (fun k i hk => ?_) (fun _ => id) fun _ => trivial
      · rw [update_of_ne (by simp), update_of_ne (by simp [hinj.ne hne])]
      · by_cases he : k = key
        · subst he
          rw [update_self] at hk
          exact ht i (hfd.trans hk)
        · rw [update_of_ne (by simpa using he), update_of_ne (by simp)] at hk
          exact h.dest k i hk
    · exact h.fail hinj t
  | removing path =>
    rw [hpc] at ht
    refine h.move (fun k t' hne => update_of_ne (ht k t' hne) _ _) (fun k i hk => ?_) (fun _ => id) fun _ => trivial
    by_cases he : .dest k = path
    · rw [he, update_self] at hk
      cases hk
    · rw [update_of_ne he] at hk
      exact h.dest k i hk
  | openingSource k b =>
    simp only
    split
    · next hfd => exact h.goto (fun _ => id) fun hf => ⟨(h.dest k _ hfd).frame hf, nil_prefix, Nat.zero_le _⟩
    · exact h.fail hinj t
  | reading k b fd view =>
    rw [hpc] at ht
    obtain ⟨hs, hv, hl⟩ := ht
    simp only
    split
    · split
      · exact h.fail hinj t
      · refine h.goto (fun _ => id) fun hf => ⟨hs.frame hf, ?_, ?_⟩
        · obtain ⟨rest, hr⟩ := hv
          rw [World.goto, ← hr, drop_left, prefix_append_right_inj]
          exact take_prefix _ _
        · rw [length_append, length_take]
          omega
    · have hlen : view.length = b := by omega
      exact h.goto (fun _ => id) fun _ => ⟨_, hs.block, hlen ▸ prefix_iff_eq_take.mp hv, hlen⟩
  | _ => exact h

theorem Inv.step (hinj : Injective tmpSuffix) {e : Nat × Event} (hs : ∀ key data, e.2 = .storeBlock key data → stores key data) :
    Inv stores tmpSuffix (w.step tmpSuffix e) := by
  unfold World.step
  split
  · exact h.fail hinj _
  · exact h.resume hinj _ _
  · exact h.goto (fun _ => id) fun _ => trivial
  · exact h.goto (fun _ => id) fun _ => hs _ _ ‹_›
  · exact h.goto (fun _ => id) fun _ => hs _ _ ‹_›
  · exact h.goto (fun _ => id) fun _ => trivial
  · exact h.goto (fun _ => id) fun _ => trivial
  · exact h

omit h

theorem Inv.of_run (hinj : Injective tmpSuffix) (events : List (Nat × Event)) :
    Inv (fun key data => ∃ t, (t, .storeBlock key data) ∈ events) tmpSuffix
      (events.foldl (World.step tmpSuffix) {}) :=
  foldlRecOn (motive := Inv _ _) events _ ⟨fun _ _ _ h => h.elim, by simp, fun _ => trivial⟩ fun _ h e he =>
    h.step hinj fun _ _ heq => ⟨e.1, heq ▸ he⟩

/-- Whatever the threads do, wherever they fail or end. -/
theorem destination_complete (hinj : Injective tmpSuffix) (events : List (Nat × Event)) :
    Atomic (fun key data => ∃ t, (t, .storeBlock key data) ∈ events) (events.foldl (World.step tmpSuffix) {}) := by
  have hi := Inv.of_run hinj events
  refine ⟨fun key i hk => (hi.dest key i hk).block, fun t key blockSize view hpc => ?_⟩
  have ht := hi.threads t
  rwa [hpc] at ht

/-- A file is one store of its key, and so is what a load returns if the stores of the key are of its size. -/
theorem blocks_whole (hinj : Injective tmpSuffix) (events : List (Nat × Event)) :
    let w := events.foldl (World.step tmpSuffix) {}
    (∀ key i, w.files (.dest key) = some i → ∃ t, (t, .storeBlock key (w.inodes i)) ∈ events) ∧
    ∀ t key blockSize view, w.threads t = .loaded key blockSize view →
      (∀ t' data, (t', .storeBlock key data) ∈ events → data.length = blockSize) →
      ∃ t', (t', .storeBlock key view) ∈ events := by
  intro w
  have hi := Inv.of_run hinj events
  refine ⟨fun key i hk => (hi.dest key i hk).block, fun t key blockSize view hpc hsize => ?_⟩
  have ht := hi.threads t
  rw [hpc] at ht
  obtain ⟨data, ⟨t', hs⟩, rfl, -⟩ := ht
  rw [take_of_length_le (hsize t' data hs).le]
  exact ⟨t', hs⟩

end

/-- Two threads store one block, the second opens its file before the first has replaced the destination. -/
def storedTwice : List (Nat × Event) :=
  [(0, .storeBlock 5 [1, 2]), (1, .storeBlock 5 [1, 2])] ++
  [0, 1, 0, 1, 0, 1, 0, 0, 0].map (·, .result (some 1)) ++ [(0, .loadBlock 5 2)] ++
  replicate 4 (0, .result (some 1))

theorem destination_complete_storedTwice :
    (storedTwice.foldl (World.step (· + 3)) {}).threads 0 = .loaded 5 2 [1, 2] ∧
      (storedTwice.foldl (World.step (· + 3)) {}).threads 1 = .writing 5 [1, 2] 1 1 ∧
      Atomic (fun key data => ∃ t, (t, .storeBlock key data) ∈ storedTwice)
        (storedTwice.foldl (World.step (· + 3)) {}) :=
  ⟨rfl, rfl, destination_complete (fun _ _ => Nat.add_right_cancel) storedTwice⟩

theorem blocks_whole_storedTwice :
    let w := storedTwice.foldl (World.step (· + 3)) {}
    w.files (.dest 5) = some 0 ∧ (∃ t, (t, .storeBlock 5 (w.inodes 0)) ∈ storedTwice) ∧
      ∃ t, (t, .storeBlock 5 [1, 2]) ∈ storedTwice := by
  have hinj : Injective (· + 3 : Nat → Nat) := fun _ _ => Nat.add_right_cancel
  obtain ⟨hd, hl⟩ := blocks_whole hinj storedTwice
  refine ⟨rfl, hd 5 0 rfl, hl 0 5 2 _ rfl fun t' data hm => ?_⟩
  simp only [storedTwice, map_cons, map_nil, mem_append, mem_cons, mem_replicate, Prod.mk.injEq, Event.storeBlock.injEq,
    reduceCtorEq, and_false, or_false, not_mem_nil, true_and] at hm
  rcases hm with ⟨-, rfl⟩ | ⟨-, rfl⟩ <;> rfl

end VllmAscend.FsTier
