import Mathlib.Data.Fintype.Basic
import VllmAscend.Lib.Python

/-!
# Release of the prefill side's blocks

Every prefill rank keeps the blocks of a request until it has heard from as many
decode ranks as it was announced. The numbers come from the static port mapping,
and every message carries all of them.
-/

namespace VllmAscend.Mooncake.Release

open Function

inductive Pc where
  | unsubmitted
  | queued
  /-- The transfer is over, `_mark_request_task_done` comes next. -/
  | transferred
  /-- The last task of its worker, before it drops the mark. -/
  | finishing
  | clearing
  /-- Before the locked part of `_send_done_signal_to_free_remote_port`. -/
  | checking
  /-- These ports are told next. -/
  | releasing (ports : List Nat)
  | signalling
  | done
deriving DecidableEq, Repr

structure Plan where
  remotePorts : List Nat
  /-- `local_remote_block_port_mappings`: for each decode port and head group the ports it is mapped to. -/
  mappings : List (Nat × List (List Nat))
  size : Nat
  worker : Fin size → Nat
  port : Fin size → Nat
  /-- The worker whose handshake port is the side channel port. -/
  first : Nat
  port_mem : ∀ t, port t ∈ remotePorts

namespace Plan

variable (plan : Plan)

def announced (p : Nat) : Nat := ((plan.mappings.flatMap Prod.snd).flatten).count p

def unusedPorts : List Nat := plan.remotePorts.filter fun p => plan.announced p = 0

def allTaskDone (t : Fin plan.size) : Bool := decide (∀ t' > t, plan.worker t' ≠ plan.worker t)

end Plan

structure Decoder where
  requestTaskCount : Option Nat := none
  finishedMarker : Bool := false
  failed : Bool := false
  procNotTransfer : Option Bool := none
deriving DecidableEq, Repr

namespace Decoder

def markRequestTaskSubmitted (d : Decoder) (allTaskDone : Bool) : Decoder :=
  { d with
    requestTaskCount := some (d.requestTaskCount.getD 0 + 1)
    finishedMarker := d.finishedMarker || allTaskDone }

def markRequestTaskDone (d : Decoder) (allTaskDone : Bool) : Decoder × Bool :=
  match d.requestTaskCount with
  | none => (d, allTaskDone)
  | some pendingCount =>
    if pendingCount - 1 > 0 then ({ d with requestTaskCount := some (pendingCount - 1) }, false)
    else ({ d with requestTaskCount := none, finishedMarker := false }, d.finishedMarker)

end Decoder

/-- `toProcess`: the request is in `reqs_to_process`. `freed` has for each release whether every pull from the rank
had been read. -/
structure Prefiller where
  portSendNum : Option Nat := none
  toProcess : Bool := true
  received : Nat := 0
  freed : List Bool := []
deriving DecidableEq

def Prefiller.updateDoneTaskCount (s : Prefiller) (allRead : Bool) : Prefiller :=
  if s.toProcess then { s with toProcess := false, freed := s.freed ++ [allRead] } else s

def Prefiller.receive (s : Prefiller) (announced : Nat) (allRead : Bool) : Prefiller :=
  let count := s.portSendNum.getD 0 + 1
  let s := { s with portSendNum := some count, received := s.received + 1 }
  if announced ≤ count then { s.updateDoneTaskCount allRead with portSendNum := none } else s

structure World (plan : Plan) where
  pc : Fin plan.size → Pc := fun _ => .unsubmitted
  decoders : Nat → Decoder := fun _ => {}
  prefillers : Nat → Prefiller := fun _ => {}

def Pc.hasRead : Pc → Bool
  | .unsubmitted | .queued => false
  | _ => true

namespace World

variable {plan : Plan}

def move (w : World plan) (t : Fin plan.size) (pc : Pc) (d : Decoder) : World plan :=
  { w with pc := Function.update w.pc t pc, decoders := Function.update w.decoders (plan.worker t) d }

def deliver (w : World plan) (p : Nat) : World plan :=
  { w with
    prefillers := Function.update w.prefillers p
      ((w.prefillers p).receive (plan.announced p) (decide (∀ t, plan.port t = p → (w.pc t).hasRead = true))) }

def step (w : World plan) (e : Fin plan.size × Bool) : World plan :=
  let t := e.1
  let d := w.decoders (plan.worker t)
  match w.pc t with
  | .unsubmitted =>
    if ∀ t' < t, plan.worker t' = plan.worker t → w.pc t' ≠ .unsubmitted then
      w.move t .queued (d.markRequestTaskSubmitted (plan.allTaskDone t))
    else w
  | .queued => w.move t .transferred (if d.failed || !e.2 then { d with failed := true } else d)
  | .transferred =>
    let (d, last) := d.markRequestTaskDone (plan.allTaskDone t)
    w.move t (if last then .finishing else .checking) d
  | .finishing => w.move t .clearing { d with procNotTransfer := none }
  | .clearing => w.move t .checking { d with failed := false }
  | .checking =>
    if plan.worker t = plan.first then
      w.move t (.releasing (if d.procNotTransfer.getD true then plan.unusedPorts else []))
        { d with procNotTransfer := some false }
    else w.move t .signalling d
  | .releasing [] => w.move t .signalling d
  | .releasing (p :: ports) => (w.deliver p).move t (.releasing ports) d
  | .signalling => (w.deliver (plan.port t)).move t .done d
  | .done => w

def run (plan : Plan) (events : List (Fin plan.size × Bool)) : World plan := events.foldl step {}

/-- Every prefill rank freed the blocks once, after every pull from it, and no decode worker keeps anything. -/
def Released (w : World plan) : Prop :=
  (∀ p ∈ plan.remotePorts, (w.prefillers p).received = max 1 (plan.announced p) ∧ (w.prefillers p).freed = [true]) ∧
    ∀ i, w.decoders i = {}

def Complete (w : World plan) : Prop := ∀ t, w.pc t = .done

end World

/-! ## The mark -/

namespace World

variable {plan : Plan} {w : World plan}

def asked : Pc → Bool
  | .releasing _ | .signalling | .done => true
  | _ => false

def asks : Pc → Bool
  | .clearing | .checking => true
  | _ => false

def Marked (w : World plan) : Prop :=
  (w.decoders plan.first).procNotTransfer = none → ∀ t, plan.worker t = plan.first → asked (w.pc t) = true →
    ∃ t', plan.worker t' = plan.first ∧ asks (w.pc t') = true

theorem Marked.move (h : w.Marked) {pc : Pc} (hm : d.procNotTransfer = (w.decoders (plan.worker t)).procNotTransfer)
    (ha : asked pc = true → asked (w.pc t) = true) (hak : asks (w.pc t) = true → asks pc = true) :
    (w.move t pc d).Marked := by
  intro hn t1 ht1 ha1
  have hn' : (w.decoders plan.first).procNotTransfer = none := by
    by_cases hw : plan.first = plan.worker t
    · rw [hw] at hn ⊢
      simp only [World.move, update_self] at hn
      rwa [← hm]
    · simpa only [World.move, update_of_ne hw] using hn
  have ha0 : asked (w.pc t1) = true := by
    by_cases heq : t1 = t
    · subst heq
      simp only [World.move, update_self] at ha1
      exact ha ha1
    · simpa only [World.move, update_of_ne heq] using ha1
  obtain ⟨t', ht', hak'⟩ := h hn' t1 ht1 ha0
  refine ⟨t', ht', ?_⟩
  by_cases heq : t' = t
  · subst heq
    simp only [World.move, update_self]
    exact hak hak'
  · simpa only [World.move, update_of_ne heq] using hak'

theorem Marked.deliver (h : w.Marked) (p : Nat) : (w.deliver p).Marked := h

theorem procNotTransfer_done (d : Decoder) (allTaskDone : Bool) :
    (d.markRequestTaskDone allTaskDone).1.procNotTransfer = d.procNotTransfer := by
  unfold Decoder.markRequestTaskDone
  split
  · rfl
  · split <;> rfl

theorem Marked.step (h : w.Marked) (e : Fin plan.size × Bool) : (w.step e).Marked := by
  obtain ⟨t, ok⟩ := e
  unfold World.step
  dsimp only
  split
  · rename_i hpc
    split
    · exact h.move rfl (by simp [asked]) (by simp [asks, hpc])
    · exact h
  · rename_i hpc
    refine h.move ?_ (by simp [asked]) (by simp [asks, hpc])
    split <;> rfl
  · rename_i hpc
    refine h.move (procNotTransfer_done _ _) ?_ (by simp [asks, hpc])
    split <;> simp [asked]
  · -- the mark is dropped, and the task will ask
    intro hnone t1 ht1 hak1
    by_cases hw : plan.worker t = plan.first
    · exact ⟨t, hw, by simp [World.move, asks]⟩
    have hkeep : (w.move t .clearing (w.decoders (plan.worker t))).Marked :=
      h.move rfl (by simp [asked]) (by simp [asks])
    refine hkeep ?_ t1 ht1 hak1
    simpa only [World.move, update_of_ne (Ne.symm hw)] using hnone
  · rename_i hpc
    exact h.move rfl (by simp [asked]) (by simp [asks])
  · rename_i hpc
    split
    · rename_i hw
      intro hnone
      simp [World.move, hw] at hnone
    -- another worker
    rename_i hw
    intro hnone t1 ht1 hak1
    have hne : t1 ≠ t := fun heq => hw (heq ▸ ht1)
    have hde : (w.decoders plan.first).procNotTransfer = none := by
      simpa only [World.move, update_of_ne (Ne.symm hw)] using hnone
    obtain ⟨t', ht', hask'⟩ := h hde t1 ht1 (by simpa only [World.move, update_of_ne hne] using hak1)
    have hne' : t' ≠ t := fun heq => hw (heq ▸ ht')
    exact ⟨t', ht', by simpa only [World.move, update_of_ne hne'] using hask'⟩
  · rename_i hpc
    exact h.move rfl (by simp [asked, hpc]) (by simp [asks, hpc])
  · rename_i hpc
    exact (h.deliver _).move rfl (by simp [asked, World.deliver, hpc]) (by simp [asks, World.deliver, hpc])
  · rename_i hpc
    exact (h.deliver _).move rfl (by simp [asked, World.deliver, hpc]) (by simp [asks, World.deliver, hpc])
  · exact h

theorem marked_run (es : List (Fin plan.size × Bool)) : (run plan es).Marked := by
  have hs : ({} : World plan).Marked := fun _ t _ h => by cases h
  exact List.foldlRecOn es World.step hs fun _ h e _ => h.step e

theorem mark_left (hd : (run plan es).Complete)
    (ht : plan.worker t = plan.first) : ((run plan es).decoders plan.first).procNotTransfer ≠ none := by
  intro hn
  obtain ⟨t', -, ha⟩ := marked_run es hn t ht (by rw [hd t]; rfl)
  rw [hd t'] at ha
  cases ha

end World

end VllmAscend.Mooncake.Release
