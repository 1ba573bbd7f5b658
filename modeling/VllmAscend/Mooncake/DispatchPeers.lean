import VllmAscend.Mooncake.Dispatch

/-!
# One handler for each peer

A peer is active exactly while one handler is there for it or about to be
submitted, and its queue is empty when it is not active. The tasks of a peer
are taken, queued and handled in one order.
-/

namespace VllmAscend.Mooncake

open Python Handler Submitter List

/-! ## Handlers and their tasks -/

namespace Handler

def peer : Handler → PeerKey
  | .scheduled p | .looping p _ | .transferring p _ _ | .marking p _ _ | .finishing p _ _ | .resubmitting p => p

def inHand : Handler → List Task
  | .transferring _ _ t => [t]
  | _ => []

def unmarked : Handler → List Task
  | .transferring _ _ t | .marking _ _ t => [t]
  | _ => []

def ending : Handler → List Task
  | .finishing _ _ t => [t]
  | _ => []

theorem unmarked_of_inHand {h : Handler} (ht : t ∈ h.inHand) : t ∈ h.unmarked := by
  cases h <;> first | exact ht | cases ht

def weight : Handler → Nat
  | .looping _ handled => if handled < maxRequestsPerPeerHandler then 1 else 4
  | .scheduled _ => 2
  | .resubmitting _ => 3
  | .finishing _ _ _ => 5
  | .marking _ _ _ => 6
  | .transferring _ _ _ => 7

end Handler

namespace Submitter

def weight : Submitter → Nat
  | .idle => 0
  | .starting _ => 3
  | .marked _ => 11

def tasks : Submitter → List Task
  | .marked t => [t]
  | _ => []

def starts (p : PeerKey) : Submitter → Nat
  | .starting p' => if p' = p then 1 else 0
  | _ => 0

end Submitter

theorem split_of_getElem? {α : Type*} {a : α} : ∀ {l : List α} {i : Nat}, l[i]? = some a →
    ∃ l1 l2, l = l1 ++ a :: l2 ∧ l.eraseIdx i = l1 ++ l2
  | b :: l, 0, h => by
    cases h
    exact ⟨[], l, rfl, rfl⟩
  | b :: l, i + 1, h => by
    obtain ⟨l1, l2, hl, he⟩ := split_of_getElem? (i := i) h
    exact ⟨b :: l1, l2, by rw [hl]; rfl, by rw [eraseIdx_cons_succ, he]; rfl⟩

namespace RecvingThread

/-! ## Peers -/

def onPeer (p : PeerKey) (l : List Task) : List Task := l.filter fun t => t.peer = p

def handlersOf (p : PeerKey) (hs : List Handler) : List Handler := hs.filter fun h => h.peer = p

structure PeerInv (s : RecvingThread) : Prop where
  one : ∀ p, (handlersOf p s.handlers).length + s.submitter.starts p =
    if p ∈ s.activePeerRequestHandlers then 1 else 0
  idle : ∀ p, p ∉ s.activePeerRequestHandlers → listAt p s.peerRequestQueues = []
  fifo : ∀ p, onPeer p s.taken = onPeer p s.handled ++ (handlersOf p s.handlers).flatMap Handler.inHand ++
    listAt p s.peerRequestQueues ++ onPeer p s.submitter.tasks

variable {s : RecvingThread}

theorem onPeer_append : onPeer p (l ++ l') = onPeer p l ++ onPeer p l' := filter_append ..

theorem onPeer_of_peer (ht : t.peer = p) : onPeer p [t] = [t] := by simp [onPeer, ht]

theorem onPeer_of_ne (ht : t.peer ≠ p) : onPeer p [t] = [] := by simp [onPeer, ht]

theorem handlersOf_append : handlersOf p (l ++ l') = handlersOf p l ++ handlersOf p l' := filter_append ..

theorem handlersOf_of_peer (hp : h.peer = p) : handlersOf p [h] = [h] := by simp [handlersOf, hp]

theorem handlersOf_of_ne (hp : h.peer ≠ p) : handlersOf p [h] = [] := by simp [handlersOf, hp]

theorem handlersOf_split : handlersOf p (l1 ++ h :: l2) = handlersOf p l1 ++ handlersOf p [h] ++ handlersOf p l2 := by
  rw [handlersOf_append, show h :: l2 = [h] ++ l2 from rfl, handlersOf_append, append_assoc]

theorem PeerInv.alone (hi : PeerInv s) (hs : s.handlers = l1 ++ h :: l2) :
    handlersOf h.peer l1 = [] ∧ handlersOf h.peer l2 = [] ∧ handlersOf h.peer s.handlers = [h] ∧
      h.peer ∈ s.activePeerRequestHandlers ∧ s.submitter.starts h.peer = 0 := by
  have ho := hi.one h.peer
  have ha : handlersOf h.peer s.handlers = handlersOf h.peer l1 ++ [h] ++ handlersOf h.peer l2 := by
    rw [hs, handlersOf_split, handlersOf_of_peer rfl]
  rw [ha, length_append, length_append, length_singleton] at ho
  split at ho
  · next hact =>
    have h1 : (handlersOf h.peer l1).length = 0 := by omega
    have h2 : (handlersOf h.peer l2).length = 0 := by omega
    have h1' := eq_nil_of_length_eq_zero h1
    have h2' := eq_nil_of_length_eq_zero h2
    refine ⟨h1', h2', by rw [ha, h1', h2']; rfl, hact, by omega⟩
  · omega

theorem PeerInv.handlersOf_next (hinv : PeerInv s) {next : Option Handler}
    (hs : s.handlers = l1 ++ h :: l2) (hnext : ∀ h' ∈ next, h'.peer = h.peer) (p : PeerKey) :
    handlersOf p (l1 ++ l2 ++ next.toList) =
      if h.peer = p then next.toList else handlersOf p s.handlers := by
  obtain ⟨h1, h2, -⟩ := hinv.alone hs
  rw [handlersOf_append, handlersOf_append]
  split
  · next hp =>
    subst hp
    rw [h1, h2]
    cases next with
    | none => rfl
    | some h' => exact handlersOf_of_peer (hnext h' rfl)
  · next hp =>
    rw [hs, handlersOf_split, handlersOf_of_ne hp, append_nil]
    cases next with
    | none => exact append_nil _
    | some h' =>
      have hp' : h'.peer ≠ p := fun heq => hp ((hnext h' rfl).symm.trans heq)
      exact (congrArg _ (handlersOf_of_ne hp')).trans (append_nil _)

/-! ### What a step of a handler does to the peers -/

theorem advance_peer (ok : Bool) (h : Handler) : ∀ h' ∈ (s.advance ok h).2, h'.peer = h.peer := by
  intro h' hm
  cases h with
  | looping p handled =>
    rw [advance] at hm
    split at hm
    · cases hm
    · split at hm <;> (cases hm; rfl)
  | marking p handled t =>
    simp only [advance] at hm
    cases hm
    split <;> rfl
  | _ => cases hm; rfl

theorem advance_submission (ok : Bool) (h : Handler) : (s.advance ok h).1.taken = s.taken ∧
    (s.advance ok h).1.requestQueue = s.requestQueue ∧ (s.advance ok h).1.submitter = s.submitter := by
  cases h with
  | looping p handled =>
    rw [advance]
    split
    · exact ⟨rfl, rfl, rfl⟩
    · split <;> exact ⟨rfl, rfl, rfl⟩
  | transferring p handled t =>
    simp only [advance, transfer]
    split
    · exact ⟨rfl, rfl, rfl⟩
    · split <;> exact ⟨rfl, rfl, rfl⟩
  | marking p handled t =>
    simp only [advance, markRequestTaskDone]
    split
    · exact ⟨rfl, rfl, rfl⟩
    · split <;> exact ⟨rfl, rfl, rfl⟩
  | _ => exact ⟨rfl, rfl, rfl⟩

theorem PeerInv.next (hinv : PeerInv s) (ok : Bool) {next : Option Handler}
    (ha : s.advance ok h = (s', next)) (hs : s.handlers = l1 ++ h :: l2)
    (hot : ∀ p, h.peer ≠ p → (p ∈ s'.activePeerRequestHandlers ↔ p ∈ s.activePeerRequestHandlers) ∧
      listAt p s'.peerRequestQueues = listAt p s.peerRequestQueues ∧ onPeer p s'.handled = onPeer p s.handled)
    (hact : next.toList.length = if h.peer ∈ s'.activePeerRequestHandlers then 1 else 0)
    (hidle : h.peer ∉ s'.activePeerRequestHandlers → listAt h.peer s'.peerRequestQueues = [])
    (hfi : onPeer h.peer s'.handled ++ next.toList.flatMap inHand ++ listAt h.peer s'.peerRequestQueues =
      onPeer h.peer s.handled ++ h.inHand ++ listAt h.peer s.peerRequestQueues) :
    PeerInv { s' with handlers := l1 ++ l2 ++ next.toList } := by
  obtain ⟨-, -, hon, -, hst⟩ := hinv.alone hs
  have hnext := advance_peer (s := s) ok h
  obtain ⟨hta, -, hsub⟩ := advance_submission ok h
  rw [ha] at hnext hta hsub
  have hof := hinv.handlersOf_next hs hnext
  refine ⟨fun p => ?_, fun p hp => ?_, fun p => ?_⟩
  · rw [hof, hsub]
    by_cases hpe : h.peer = p
    · subst hpe
      rw [if_pos rfl, hact, hst, Nat.add_zero]
    · rw [if_neg hpe, hinv.one p]
      simp only [(hot p hpe).1]
  · by_cases hpe : h.peer = p
    · subst hpe
      exact hidle hp
    · rw [(hot p hpe).2.1]
      exact hinv.idle p fun hmem => hp ((hot p hpe).1.mpr hmem)
  · rw [hof, hsub, hta, hinv.fifo p]
    by_cases hpe : h.peer = p
    · subst hpe
      rw [if_pos rfl, hfi, hon]
      simp
    · obtain ⟨-, hqu, hha⟩ := hot p hpe
      rw [if_neg hpe, hqu, hha]

theorem handled_peer (hi : PeerInv s) (hs : s.handlers = l1 ++ h :: l2) (ht : t ∈ h.inHand) : t.peer = h.peer := by
  have hm : t ∈ onPeer h.peer s.taken := by
    rw [hi.fifo, (hi.alone hs).2.2.1]
    simp [ht]
  simpa using (mem_filter.mp hm).2

theorem peers_transfer {ok : Bool} : (s.transfer t ok).activePeerRequestHandlers = s.activePeerRequestHandlers ∧
    (s.transfer t ok).peerRequestQueues = s.peerRequestQueues := by
  unfold transfer
  split
  · exact ⟨rfl, rfl⟩
  · split <;> exact ⟨rfl, rfl⟩

theorem peers_markRequestTaskDone {r : RequestId} {last : Bool} : (s.markRequestTaskDone r last).1.handled = s.handled ∧
    (s.markRequestTaskDone r last).1.activePeerRequestHandlers = s.activePeerRequestHandlers ∧
    (s.markRequestTaskDone r last).1.peerRequestQueues = s.peerRequestQueues := by
  unfold markRequestTaskDone
  split
  · exact ⟨rfl, rfl, rfl⟩
  · split <;> exact ⟨rfl, rfl, rfl⟩

section
variable {handled : Nat}

theorem advance_looping_nil (hq : listAt p s.peerRequestQueues = []) :
    s.advance ok (.looping p handled) = (s.release p, none) := by
  simp only [advance, hq]

theorem advance_looping_lt (hq : listAt p s.peerRequestQueues = t :: rest)
    (hlt : handled < maxRequestsPerPeerHandler) : s.advance ok (.looping p handled) =
      ({ s with peerRequestQueues := dictSet p rest s.peerRequestQueues }, some (.transferring p (handled + 1) t)) := by
  simp only [advance, hq, if_pos hlt]

theorem advance_looping_ge (hq : listAt p s.peerRequestQueues = t :: rest)
    (hge : ¬ handled < maxRequestsPerPeerHandler) :
    s.advance ok (.looping p handled) = (s, some (.resubmitting p)) := by
  simp only [advance, hq, if_neg hge]

end

theorem PeerInv.handle (hinv : PeerInv s) : PeerInv (s.handle i ok) := by
  unfold RecvingThread.handle
  split
  · exact hinv
  rename_i h hget
  obtain ⟨l1, l2, hs, hea⟩ := split_of_getElem? hget
  obtain ⟨-, -, -, hac, -⟩ := hinv.alone hs
  rw [hea]
  cases h with
  | scheduled | resubmitting | finishing =>
    exact hinv.next ok rfl hs (fun _ _ => ⟨Iff.rfl, rfl, rfl⟩) (if_pos hac).symm (fun hp => absurd hac hp) rfl
  | marking p handled t =>
    obtain ⟨hha, hact, hquu⟩ := @peers_markRequestTaskDone s t.requestId t.allTaskDone
    have hadv : s.advance ok (.marking p handled t) = ((s.markRequestTaskDone t.requestId t.allTaskDone).1,
      some (if (s.markRequestTaskDone t.requestId t.allTaskDone).2 then .finishing p handled t
        else .looping p handled)) := rfl
    rw [hadv]
    refine hinv.next ok hadv hs (fun _ _ => ?_) (if_pos (hact ▸ hac)).symm (fun hp => absurd (hact ▸ hac) hp) ?_
    · rw [hact, hquu, hha]
      exact ⟨Iff.rfl, rfl, rfl⟩
    · rw [hha, hquu]
      split <;> rfl
  | transferring p handled t =>
    have hpe : t.peer = p := handled_peer hinv hs mem_cons_self
    obtain ⟨hact, hquu⟩ := @peers_transfer s t ok
    refine hinv.next ok rfl hs (fun p' hp' => ?_) (if_pos (hact ▸ hac)).symm (fun hp => absurd (hact ▸ hac) hp) ?_
    · have hne : t.peer ≠ p' := hpe ▸ hp'
      simp only [hact, hquu, onPeer_append, onPeer_of_ne hne, append_nil, and_self]
    · simp only [hquu]
      rw [onPeer_append, onPeer_of_peer (show t.peer = (Handler.transferring p handled t).peer from hpe)]
      simp [inHand]
  | looping p handled =>
    cases hqu : listAt p s.peerRequestQueues with
    | nil =>
      rw [advance_looping_nil hqu]
      refine hinv.next ok (advance_looping_nil hqu) hs (fun p' hp' => ?_) ?_ (fun _ => ?_) ?_
      · have hne : p ≠ p' := hp'
        refine ⟨by simp [release, hne.symm], ?_, rfl⟩
        rw [listAt, listAt, release, dictGet_dictPop, if_neg hne]
      · exact (if_neg (Finset.notMem_erase p _)).symm
      · rw [listAt, release, dictGet_dictPop]
        exact congrArg (Option.getD · []) (if_pos rfl)
      · simp only [release, listAt, dictGet_dictPop, peer]
        simp only [listAt] at hqu
        rw [hqu]
        rfl
    | cons t rest =>
      by_cases hlt : handled < maxRequestsPerPeerHandler
      · rw [advance_looping_lt hqu hlt]
        refine hinv.next ok (advance_looping_lt hqu hlt) hs (fun p' hp' => ⟨Iff.rfl, ?_, rfl⟩) (if_pos hac).symm
          (fun hp => absurd hac hp) ?_
        · have hne : p ≠ p' := hp'
          rw [listAt, listAt, dictGet_dictSet, if_neg hne]
        · simp [peer, inHand, listAt, dictGet_dictSet]
          simpa [listAt] using hqu.symm
      · rw [advance_looping_ge hqu hlt]
        exact hinv.next ok (advance_looping_ge hqu hlt) hs (fun _ _ => ⟨Iff.rfl, rfl, rfl⟩) (if_pos hac).symm
          (fun hp => absurd hac hp) rfl

theorem PeerInv.submit (hinv : PeerInv s) : PeerInv s.submit := by
  unfold RecvingThread.submit
  cases hsub : s.submitter with
  | idle =>
    cases hqu : s.requestQueue with
    | nil => exact hinv
    | cons t rest =>
      have hst : ∀ p, s.submitter.starts p = 0 := fun p => by rw [hsub]; rfl
      refine ⟨fun p => ?_, hinv.idle, fun p => ?_⟩
      · have hone := hinv.one p
        rw [hst] at hone
        exact hone
      · have hfi := hinv.fifo p
        rw [hsub] at hfi
        simp only [onPeer_append, hfi]
        simp [tasks, onPeer, markRequestTaskSubmitted]
  | marked t =>
    have hone := hinv.one
    have hfi := hinv.fifo
    rw [hsub] at hone hfi
    have hqu : ∀ p, listAt p (dictAppend t.peer t s.peerRequestQueues) =
        listAt p s.peerRequestQueues ++ onPeer p [t] := fun p => by
      rw [listAt_dictAppend]
      by_cases hp : t.peer = p <;> simp [onPeer, hp]
    have hlast : ∀ p, onPeer p s.taken = onPeer p s.handled ++ (handlersOf p s.handlers).flatMap inHand ++
        listAt p (dictAppend t.peer t s.peerRequestQueues) ++ onPeer p [] := fun p => by
      rw [hfi, hqu, tasks]
      simp [onPeer]
    simp only
    by_cases hact : t.peer ∈ s.activePeerRequestHandlers
    · rw [if_pos hact]
      refine ⟨hone, fun p hp => ?_, hlast⟩
      have hne : t.peer ≠ p := fun heq => hp (heq ▸ hact)
      simp only [hqu, hinv.idle p hp, onPeer_of_ne hne]
      rfl
    · rw [if_neg hact]
      refine ⟨fun p => ?_, fun p hp => ?_, hlast⟩
      · have hp := hone p
        by_cases heq : t.peer = p
        · subst heq
          rw [if_neg hact] at hp
          simp only [starts, if_true, Finset.mem_insert_self]
          omega
        · simp only [starts, if_neg heq, Finset.mem_insert, Ne.symm heq, false_or]
          exact hp
      · rw [Finset.mem_insert, not_or] at hp
        simp only [hqu, hinv.idle p hp.2, onPeer_of_ne (Ne.symm hp.1)]
        rfl
  | starting p =>
    have hone := hinv.one
    have hfi := hinv.fifo
    rw [hsub] at hone hfi
    refine ⟨fun p' => ?_, hinv.idle, fun p' => ?_⟩
    · rw [← hone p']
      simp only [handlersOf_append, length_append, starts]
      by_cases hp : p = p'
      · rw [if_pos hp, handlersOf_of_peer (h := .scheduled p) hp]
        rfl
      · rw [if_neg hp, handlersOf_of_ne (h := .scheduled p) hp]
        rfl
    · refine (hfi p').trans ?_
      simp only [handlersOf_append, flatMap_append]
      by_cases hp : p = p'
      · rw [handlersOf_of_peer (h := .scheduled p) hp]
        simp [inHand, tasks]
      · rw [handlersOf_of_ne (h := .scheduled p) hp]
        simp [tasks]

theorem PeerInv.step (hi : PeerInv s) (e : Event) : PeerInv (s.step e) := by
  cases e with
  | addReqToProcess r => exact ⟨hi.one, hi.idle, hi.fifo⟩
  | addRequest t => exact ⟨hi.one, hi.idle, hi.fifo⟩
  | submit => exact hi.submit
  | handle i ok => exact hi.handle
  | getFinished timeout now => exact ⟨hi.one, hi.idle, hi.fifo⟩

theorem peerInv_start : PeerInv {} := ⟨fun _ => rfl, fun _ _ => rfl, fun _ => rfl⟩

theorem peerInv_run (es : List Event) : PeerInv (es.foldl RecvingThread.step {}) :=
  foldlRecOn es _ peerInv_start fun _ hs e _ => hs.step e

end RecvingThread

end VllmAscend.Mooncake
