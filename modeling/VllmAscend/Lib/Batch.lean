import Mathlib.Data.Fintype.Basic
import VllmAscend.Lib.Python

/-!
# Batches of point-to-point messages

Each party posts a list of sends and receives. Messages between two parties are
reliable and ordered: a receive takes the first message of its sender that no
earlier receive took.
-/

namespace Batch

inductive Op (ι κ τ : Type*) where
  | send (dst : ι) (x : τ)
  | recv (src : ι) (key : κ)

section
variable {ι κ τ : Type*} [DecidableEq ι]

def sentTo (dst : ι) (ops : List (Op ι κ τ)) : List τ :=
  ops.filterMap fun
    | .send d x => if d = dst then some x else none
    | .recv .. => none

def keysFrom (src : ι) (ops : List (Op ι κ τ)) : List κ :=
  ops.filterMap fun
    | .send .. => none
    | .recv s key => if s = src then some key else none

def keys (ops : List (Op ι κ τ)) : List κ :=
  ops.filterMap fun
    | .send .. => none
    | .recv _ key => some key

/-! ## Lists of one kind of operation -/

section
variable {α β γ : Type*} {sends : List α} {recvs : List β} {dst : α → ι} {xs : α → List τ} {src : β → ι} {ks : β → List κ}
  {ops : List (Op ι κ τ)} (hops : ops = sends.flatMap (fun a => (xs a).map (.send (dst a))) ++
    recvs.flatMap fun b => (ks b).map (.recv (src b)))

include hops

omit [DecidableEq ι] in
theorem filterMap_sends_recvs (f : Op ι κ τ → Option γ) : ops.filterMap f =
      (sends.flatMap fun a => (xs a).filterMap fun x => f (.send (dst a) x)) ++
        recvs.flatMap fun b => (ks b).filterMap fun key => f (.recv (src b) key) := by
  simp only [hops, List.filterMap_append, List.filterMap_flatMap, List.filterMap_map, Function.comp_def]

omit hops in
theorem flatMap_filterMap_ite (party : ι) (of : α → ι) (f : α → List γ) : ∀ l : List α,
    (l.flatMap fun a => (f a).filterMap fun x => if of a = party then some x else none) =
      (l.filter fun a => of a = party).flatMap f
  | [] => rfl
  | a :: l => by
    rw [List.flatMap_cons, flatMap_filterMap_ite party of f l]
    by_cases h : of a = party <;> simp [h]

variable {party : ι}

theorem sentTo_sends_recvs : sentTo party ops = (sends.filter fun a => dst a = party).flatMap xs := by
  rw [sentTo, filterMap_sends_recvs hops, ← flatMap_filterMap_ite]
  simp

theorem keysFrom_sends_recvs : keysFrom party ops = (recvs.filter fun b => src b = party).flatMap ks := by
  rw [keysFrom, filterMap_sends_recvs hops, ← flatMap_filterMap_ite]
  simp

omit [DecidableEq ι] in
theorem keys_sends_recvs : keys ops = recvs.flatMap ks := by
  rw [keys, filterMap_sends_recvs hops]
  simp

end

/-! ## Delivery -/

def receive : (ι → List τ) → List (Op ι κ τ) → Option (List (κ × τ) × (ι → List τ))
  | queues, [] => some ([], queues)
  | queues, .send .. :: ops => receive queues ops
  | queues, .recv src key :: ops =>
    match queues src with
    | [] => none
    | x :: xs => (receive (Function.update queues src xs) ops).map fun got => ((key, x) :: got.1, got.2)

def received [Fintype ι] (posted : ι → List (Op ι κ τ)) (dst : ι) : Option (List (κ × τ)) :=
  match receive (fun src => sentTo dst (posted src)) (posted dst) with
  | none => none
  | some (got, left) => if ∀ src, (left src).isEmpty then some got else none

theorem keysFrom_recv {src s : ι} {key : κ} {ops : List (Op ι κ τ)} :
    keysFrom src (.recv s key :: ops) = if s = src then key :: keysFrom src ops else keysFrom src ops := by
  by_cases h : s = src <;> simp [keysFrom, h]

theorem receive_of_forall₂ {R : κ → τ → Prop} : ∀ {ops : List (Op ι κ τ)} {queues : ι → List τ},
    (∀ src, List.Forall₂ R (keysFrom src ops) (queues src)) →
    ∃ got left, receive queues ops = some (got, left) ∧ got.map Prod.fst = keys ops ∧
      (∀ p ∈ got, R p.1 p.2) ∧ ∀ src, left src = []
  | [], queues, h => ⟨[], queues, rfl, rfl, by simp, fun src => by simpa [keysFrom] using h src⟩
  | .send dst x :: ops, queues, h => by
    have h' : ∀ src, List.Forall₂ R (keysFrom src ops) (queues src) := h
    simpa [receive, keys] using receive_of_forall₂ h'
  | .recv src key :: ops, queues, h => by
    have hsr := h src
    rw [keysFrom_recv, if_pos rfl] at hsr
    obtain ⟨x, xs, hx, hxs, hqu⟩ := List.forall₂_cons_left_iff.mp hsr
    -- the other senders' receives are those of the rest
    have h' : ∀ s, List.Forall₂ R (keysFrom s ops) (Function.update queues src xs s) := by
      intro s
      by_cases hs : s = src
      · subst hs; simpa using hxs
      rw [Function.update_of_ne hs]
      have hot := h s
      rwa [keysFrom_recv, if_neg (Ne.symm hs)] at hot
    obtain ⟨got, left, hre, hke, hgo, hle⟩ := receive_of_forall₂ h'
    refine ⟨(key, x) :: got, left, by simp [receive, hqu, hre], by rw [List.map_cons, hke]; rfl, ?_, hle⟩
    rintro p (_ | ⟨_, hp⟩)
    · exact hx
    · exact hgo p hp

theorem received_of_forall₂ [Fintype ι] {R : κ → τ → Prop} (posted : ι → List (Op ι κ τ)) (dst : ι)
    (h : ∀ src, List.Forall₂ R (keysFrom src (posted dst)) (sentTo dst (posted src))) :
    ∃ got, received posted dst = some got ∧ got.map Prod.fst = keys (posted dst) ∧ ∀ p ∈ got, R p.1 p.2 := by
  obtain ⟨got, left, hr, hk, hg, hl⟩ := receive_of_forall₂ h
  exact ⟨got, by simp [received, hr, hl], hk, hg⟩

end

/-! ## All parties -/

def collect {ε α : Type} : {n : Nat} → (Fin n → Except ε α) → Except ε (Fin n → α)
  | 0, _ => .ok Fin.elim0
  | n + 1, f => do
    let first ← f 0
    let rest ← collect fun i : Fin n => f i.succ
    pure (Fin.cons first rest)

theorem collect_ok {ε α : Type} : ∀ {n : Nat} {f : Fin n → Except ε α} {g : Fin n → α}, (∀ i, f i = .ok (g i)) →
    collect f = .ok g
  | 0, f, g, _ => congrArg Except.ok (funext fun i => i.elim0)
  | n + 1, f, g, h => by
    have hr := collect_ok (f := fun i : Fin n => f i.succ) (g := fun i => g i.succ) fun i => h i.succ
    rw [collect, h 0, hr]
    exact congrArg Except.ok (Fin.cons_self_tail g)

theorem ok_of_collect {ε α : Type} : ∀ {n : Nat} {f : Fin n → Except ε α} {g : Fin n → α}, collect f = .ok g →
    ∀ i, f i = .ok (g i)
  | 0, _, _, _ => fun i => i.elim0
  | n + 1, f, g, h => by
    obtain ⟨first, hf, h⟩ := Python.bind_ok.mp h
    obtain ⟨rest, hr, h⟩ := Python.bind_ok.mp h
    cases h
    exact Fin.cases hf fun i => ok_of_collect hr i

end Batch
