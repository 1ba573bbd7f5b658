import Mathlib.Data.List.Infix

/-!
# Streams of device work

Work is queued on streams, each of which runs its own in order; nothing is known
of the order between streams. A record of an event is done when all that was
queued before it on its stream is done.
-/

namespace Streams

open List

inductive Work where
  /-- The stream waits for an event as it was recorded at the call: later records of the event, and its return to a
  pool, do not change what is waited for. -/
  | wait
  | record (event : Nat)
  | kernel (buffer : Nat)
deriving DecidableEq, Repr

structure Op where
  stream : Nat
  work : Work
deriving DecidableEq, Repr

abbrev Device := List Op

def Work.refs : Work → List Nat
  | .wait => []
  | .record event => [event]
  | .kernel buffer => [buffer]

def Device.onStream (d : Device) (s : Nat) : Device := d.filter (·.stream = s)

def Device.Refers (d : Device) (a : Nat) : Prop := ∃ op ∈ d, op.stream = a ∨ a ∈ op.work.refs

instance (d : Device) (a : Nat) : Decidable (d.Refers a) := inferInstanceAs (Decidable (∃ op ∈ d, _))

/-- `event.query()`: no record of the event is unfinished. -/
def Device.query (d : Device) (event : Nat) : Bool := d.all (·.work ≠ .record event)

def Device.syncStream (d : Device) (s : Nat) : Device := d.filter (·.stream ≠ s)

/-- `event.synchronize()`: what stands before the record on its stream is done as well. -/
def Device.syncEvent (event : Nat) : Device → Device
  | [] => []
  | op :: d =>
    if ⟨op.stream, .record event⟩ ∈ op :: d then Device.syncEvent event d else op :: Device.syncEvent event d

def Device.advance (d : Device) (s : Nat) : Device := d.eraseP (·.stream = s)

section
variable {d d' new : Device} {op : Op} {s event : Nat}

theorem Device.mem_onStream : op ∈ d.onStream s ↔ op ∈ d ∧ op.stream = s := by
  simp [Device.onStream]

theorem Device.onStream_cons : Device.onStream (op :: d) s = if op.stream = s then op :: d.onStream s else d.onStream s := by
  simp [Device.onStream, filter_cons]

theorem Device.onStream_append : Device.onStream (d ++ d') s = d.onStream s ++ d'.onStream s := filter_append ..

theorem Device.onStream_eq_nil : d.onStream s = [] ↔ ∀ op ∈ d, op.stream ≠ s := by
  simp [Device.onStream]

/-! ## Progress -/

def Progress (d d' : Device) : Prop := d'.Sublist d ∧ ∀ s, d'.onStream s <:+ d.onStream s

theorem Progress.refl : Progress d d := ⟨.refl d, fun _ => suffix_refl _⟩

theorem Progress.mem (h : Progress d d') (hop : op ∈ d') : op ∈ d := h.1.subset hop

theorem Progress.done (h : Progress d d') : Progress (op :: d) d' := by
  refine ⟨h.1.cons op, fun s => (h.2 s).trans ?_⟩
  rw [Device.onStream_cons]
  split
  · exact suffix_cons ..
  · exact suffix_refl _

theorem Progress.keep (h : Progress d d') (hop : d'.onStream op.stream = d.onStream op.stream) :
    Progress (op :: d) (op :: d') := by
  refine ⟨h.1.cons_cons op, fun s => ?_⟩
  rw [Device.onStream_cons, Device.onStream_cons]
  by_cases hs : op.stream = s
  · rw [if_pos hs, if_pos hs, ← hs, hop]
  · rw [if_neg hs, if_neg hs]
    exact h.2 s

theorem Device.onStream_advance_of_ne {s' : Nat} (hs : s' ≠ s) : ∀ {d : Device}, (d.advance s).onStream s' = d.onStream s'
  | [] => rfl
  | op :: d => by
    unfold Device.advance
    by_cases hop : op.stream = s
    · rw [eraseP_cons_of_pos (by simpa using hop), Device.onStream_cons, if_neg fun h => hs (h.symm.trans hop)]
    have ih := Device.onStream_advance_of_ne hs (d := d)
    rw [Device.advance] at ih
    rw [eraseP_cons_of_neg (by simpa using hop), Device.onStream_cons, Device.onStream_cons, ih]

theorem progress_advance (s : Nat) : ∀ {d : Device}, Progress d (d.advance s)
  | [] => .refl
  | op :: d => by
    by_cases hop : op.stream = s
    · rw [Device.advance, eraseP_cons_of_pos (by simpa using hop)]
      exact .done .refl
    · rw [Device.advance, eraseP_cons_of_neg (by simpa using hop)]
      exact (progress_advance s).keep (Device.onStream_advance_of_ne hop)

theorem Device.onStream_syncStream_self : (d.syncStream s).onStream s = [] := by
  simp [Device.onStream, Device.syncStream]

theorem Device.onStream_syncStream_of_ne {s' : Nat} (hs : s' ≠ s) : (d.syncStream s).onStream s' = d.onStream s' := by
  unfold Device.onStream Device.syncStream
  rw [filter_filter]
  refine filter_congr fun op _ => ?_
  by_cases hop : op.stream = s' <;> simp [hop, hs]

theorem progress_syncStream : Progress d (d.syncStream s) := by
  refine ⟨filter_sublist, fun s' => ?_⟩
  by_cases hs : s' = s
  · rw [hs, Device.onStream_syncStream_self]
    exact nil_suffix
  · rw [Device.onStream_syncStream_of_ne hs]

theorem Device.onStream_syncEvent_of_notMem : ∀ {d : Device}, ⟨s, .record event⟩ ∉ d →
    (Device.syncEvent event d).onStream s = d.onStream s
  | [], _ => rfl
  | op :: d, h => by
    have ih := Device.onStream_syncEvent_of_notMem fun hd => h (mem_cons_of_mem op hd)
    rw [Device.syncEvent]
    by_cases hop : op.stream = s
    · rw [if_neg (hop ▸ h), Device.onStream_cons, Device.onStream_cons, ih]
    split
    · rw [ih, Device.onStream_cons, if_neg hop]
    · rw [Device.onStream_cons, Device.onStream_cons, ih]

theorem progress_syncEvent : ∀ {d : Device}, Progress d (Device.syncEvent event d)
  | [] => .refl
  | op :: d => by
    rw [Device.syncEvent]
    split
    · exact progress_syncEvent.done
    · next h => exact progress_syncEvent.keep (Device.onStream_syncEvent_of_notMem fun hd => h (mem_cons_of_mem op hd))

/-! ## Streams that end in a record -/

def Device.EndsIn (d : Device) (s event : Nat) : Prop :=
  d.onStream s = [] ∨ (d.onStream s).getLast? = some ⟨s, .record event⟩

theorem Device.EndsIn.progress (h : d.EndsIn s event) (hp : Progress d d') : d'.EndsIn s event := by
  obtain ⟨l, hl⟩ := hp.2 s
  rcases h with h | h
  · rw [h, append_eq_nil_iff] at hl
    exact .inl hl.2
  by_cases hn : d'.onStream s = []
  · exact .inl hn
  · rw [← hl, getLast?_append_of_ne_nil _ hn] at h
    exact .inr h

theorem Device.EndsIn.append (h : d.EndsIn s event) (hn : ∀ op ∈ new, op.stream ≠ s) :
    Device.EndsIn (d ++ new) s event := by
  rw [Device.EndsIn, Device.onStream_append, Device.onStream_eq_nil.mpr hn, append_nil]
  exact h

theorem Device.EndsIn.of_append : Device.EndsIn (d ++ [⟨s, .record event⟩]) s event := by
  right
  rw [Device.onStream_append, Device.onStream_cons, if_pos rfl]
  exact getLast?_concat ..

theorem Device.EndsIn.eq_nil_of_query (h : d.EndsIn s event) (hq : d.query event = true) : d.onStream s = [] := by
  rcases h with h | h
  · exact h
  have hm := (Device.mem_onStream.mp (mem_of_getLast? h)).1
  have := all_eq_true.mp hq _ hm
  simp at this

theorem Device.onStream_syncEvent_nil : ∀ {d : Device}, d.EndsIn s event → (Device.syncEvent event d).onStream s = []
  | [], _ => rfl
  | op :: d, h => by
    have hd : Device.EndsIn d s event := h.progress Progress.refl.done
    rw [Device.syncEvent]
    by_cases hop : op.stream = s
    · have hm : ⟨op.stream, .record event⟩ ∈ op :: d := by
        rcases h with h | h
        · exact absurd hop (Device.onStream_eq_nil.mp h op mem_cons_self)
        · exact hop ▸ (Device.mem_onStream.mp (mem_of_getLast? h)).1
      rw [if_pos hm]
      exact Device.onStream_syncEvent_nil hd
    · split
      · exact Device.onStream_syncEvent_nil hd
      · rw [Device.onStream_cons, if_neg hop]
        exact Device.onStream_syncEvent_nil hd

end

end Streams
