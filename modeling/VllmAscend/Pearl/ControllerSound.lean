import VllmAscend.Lib.Run
import VllmAscend.Pearl.Controller

/-!
# Replies of the PEARL workers

Between calls every pipe is empty, or a worker is gone for good, and then no
call comes to an end any more. So a call that returns has read the replies to
its own commands, and a call that raises puts its requests back.
-/

namespace VllmAscend.Controller

open Python Run World Outcome List Function

/-! ## What a caller may rely on -/

def Outcome.returnedIds : Outcome → List Nat
  | .returned requests _ _ => requests
  | .failed _ => []

def Phase.requests : Phase → List Request
  | .idle => []
  | .receiving call => call.requests

/-- Every request is returned once or still waits, and what is returned was computed for it. -/
structure Matched (w : World) : Prop where
  accounted : w.outcomes.flatMap Outcome.returnedIds ++ w.phase.requests.map (·.id) ++ w.requests.map (·.id) =
    List.range w.nextRequestId
  results : ∀ requests since results, Outcome.returned requests since results ∈ w.outcomes →
    results.map (·.request) = requests ∧ ∀ r ∈ results, since ≤ r.ticket

def Untimed (w : World) : Event → Prop
  | .generate _ _ => w.timedOut = false
  | _ => True

/-! ## The pipes -/

def Worker.Quiet (k : Worker) : Prop := k.inbox = [] ∧ k.outbox = []

def Worker.Lost (k : Worker) : Prop :=
  k.status ≠ .running ∧ (k.status = .dead ∨ ∀ reply ∈ k.outbox, reply = .error)

variable {cfg : Config} {w : World} {call : Call}

def Correct (cfg : Config) (call : Call) (ticket rank : Nat) (payload : Option (List Result)) : Prop :=
  if rank = cfg.targetLeaderRank then
    ∃ results, payload = some results ∧ results.map (·.request) = call.chunk.map (·.id) ∧
      ∀ r ∈ results, r.ticket = ticket
  else payload = none

def Owes (cfg : Config) (call : Call) (ticket rank : Nat) (k : Worker) : Prop :=
  k.inbox = [⟨ticket, call.mode, call.chunk⟩] ∧ k.outbox = [] ∨
  k.inbox = [] ∧ (∃ payload, Correct cfg call ticket rank payload ∧ k.outbox = [.result payload]) ∨
  k.inbox = [] ∧ k.outbox = [.error] ∧ k.status ≠ .running

structure InSync (cfg : Config) (w : World) (call : Call) (ticket : Nat) : Prop where
  since_le : call.since ≤ ticket
  sent : w.sent = ticket + 1
  nodup : call.pending.Nodup
  pending : ∀ k < cfg.worldSize, k ∈ call.pending → Owes cfg call ticket k (w.workers k)
  received : ∀ k < cfg.worldSize, k ∉ call.pending → (w.workers k).Quiet ∧
    ∃ payload, dictGet k call.replies = some (.result payload) ∧ Correct cfg call ticket k payload

structure Collected (call : Call) (chunk : List Request) : Prop where
  split : call.requests.map (·.id) = call.outputs.map Prod.fst ++ (chunk ++ call.rest.flatten).map (·.id)
  request : call.outputs.map (·.2.request) = call.outputs.map Prod.fst
  ticket : ∀ o ∈ call.outputs, call.since ≤ o.2.ticket

/-- The pipes between calls: quiet, or one of the workers is lost, or a call has timed out. -/
def Settled (cfg : Config) (w : World) : Prop :=
  (∃ k < cfg.worldSize, (w.workers k).Lost) ∨ ∀ k < cfg.worldSize, (w.workers k).Quiet

def Channels (cfg : Config) (w : World) : Prop :=
  match w.phase with
  | .idle => w.timedOut = true ∨ Settled cfg w
  | .receiving call => Collected call call.chunk ∧ call.since ≤ w.sent ∧
      ((∃ k < cfg.worldSize, k ∈ call.pending ∧ (w.workers k).Lost) ∨ ∃ ticket, InSync cfg w call ticket)

structure Inv (cfg : Config) (w : World) : Prop extends Matched w where
  channels : Channels cfg w

/-! ## Chunks -/

theorem requestChunksFrom_flatten : ∀ {requests cur : List Request} {ts : Nat} {cks : List (List Request)},
    requestChunksFrom cfg cur ts requests = .ok cks → cks.flatten = cur ++ requests
  | [], cur, _, cks, h => by
    cases h
    split <;> simp_all
  | request :: requests, cur, ts, cks, h => by
    rw [requestChunksFrom] at h
    split at h
    · cases h
    split at h
    · cases hr : requestChunksFrom cfg [request] request.prompt.length requests with
      | error e =>
        rw [hr] at h
        cases h
      | ok rest =>
        rw [hr] at h
        cases h
        rw [flatten_cons, requestChunksFrom_flatten hr, singleton_append]
    · rw [requestChunksFrom_flatten h, append_assoc, singleton_append]

variable {requests : List Request} {command : Command}

theorem requestChunks_flatten (h : requestChunks cfg mode requests = .ok cks) : cks.flatten = requests := by
  unfold requestChunks at h
  split at h
  · cases h
    simp
  · exact requestChunksFrom_flatten h

/-! ## Ends of calls -/

def MatchedIn (w : World) (requests : List Request) : Prop :=
  w.outcomes.flatMap returnedIds ++ requests.map (·.id) ++ w.requests.map (·.id) = List.range w.nextRequestId ∧
    ∀ requests since results, Outcome.returned requests since results ∈ w.outcomes →
      results.map (·.request) = requests ∧ ∀ r ∈ results, since ≤ r.ticket

theorem Inv.matchedIn (h : Inv cfg w) (hp : w.phase = .receiving call) : MatchedIn w call.requests := by
  have ha := h.accounted
  rw [hp] at ha
  exact ⟨ha, h.results⟩

theorem matched_raise {failure : Failure} (h : MatchedIn w requests) : Matched (w.raise requests failure) := by
  constructor
  · simpa [raise, Phase.requests, returnedIds] using h.1
  · intro ids since res hm
    simp only [raise, mem_append, mem_singleton, reduceCtorEq, or_false] at hm
    exact h.2 ids since res hm

theorem matched_finish (h : MatchedIn w call.requests) (hc : Collected call []) (hrest : call.rest = []) :
    Matched (w.finish call) := by
  have hid : call.outputs.map Prod.fst = call.requests.map (·.id) := by simpa [hrest] using hc.split.symm
  -- the ids of a call are consecutive, so the outputs are in order already
  have hso : (call.outputs.map Prod.fst).Pairwise (· ≤ ·) := by
    have hra : (List.range w.nextRequestId).Pairwise (· ≤ ·) := pairwise_le_range
    rw [← h.1, ← hid] at hra
    exact (pairwise_append.mp (pairwise_append.mp hra).1).2.1
  have hsr : call.outputs.insertionSort (fun a b => a.1 ≤ b.1) = call.outputs :=
    List.Pairwise.insertionSort_eq (pairwise_map.mp hso)
  constructor
  · simpa [finish, Phase.requests, returnedIds] using h.1
  · intro ids since res hm
    simp only [finish, mem_append, mem_singleton] at hm
    rcases hm with hm | hm
    · exact h.2 ids since res hm
    cases hm
    rw [hsr, map_map]
    refine ⟨(hc.request.trans hid), fun r hr => ?_⟩
    obtain ⟨o, ho, rfl⟩ := mem_map.mp hr
    exact hc.ticket o ho

/-! ## Sending a chunk -/

theorem sendAll_lost : ((w.sendAll cfg command broken).workers k).Lost ↔ (w.workers k).Lost := by
  simp only [sendAll]
  split <;> rfl

theorem inv_nextChunk (h : MatchedIn w call.requests) (hc : Collected call []) (hsi : call.since ≤ w.sent)
    (hs : Settled cfg w) (hb : Breaks cfg w broken) : Inv cfg (w.nextChunk cfg call broken) := by
  unfold nextChunk
  split
  · rename_i hrest
    exact ⟨matched_finish h hc hrest, .inr hs⟩
  rename_i chunk rest hrest
  cases broken with
  | some k =>
    refine ⟨matched_raise h, .inr ?_⟩
    rcases hs with ⟨j, hj, hlo⟩ | hqu
    · exact .inl ⟨j, hj, sendAll_lost.mpr hlo⟩
    obtain ⟨hk, hst⟩ := hb k rfl
    refine .inl ⟨k, hk, sendAll_lost.mpr ⟨hst, .inr fun reply hm => ?_⟩⟩
    rw [(hqu k hk).2] at hm
    cases hm
  | none =>
    refine ⟨⟨h.1, h.2⟩, ⟨?_, hc.request, hc.ticket⟩, Nat.le_succ_of_le hsi, ?_⟩
    · simpa [hrest] using hc.split
    · rcases hs with ⟨j, hj, hlo⟩ | hqu
      · exact .inl ⟨j, hj, mem_range.mpr hj, sendAll_lost.mpr hlo⟩
      refine .inr ⟨w.sent, hsi, rfl, nodup_range, fun k hk _ => .inl ?_, fun k hk hno => absurd (mem_range.mpr hk) hno⟩
      simp [sendAll, hk, (hqu k hk).1, (hqu k hk).2]

/-! ## The caller -/

theorem inv_addRequest (h : Inv cfg w) (hi : w.phase = .idle) (pr : List Nat) (maxTokens : Nat) :
    Inv cfg (w.addRequest cfg pr maxTokens) := by
  unfold addRequest
  split
  · exact h
  refine ⟨⟨?_, h.results⟩, ?_⟩
  · have := h.accounted
    simp only [map_append, map_cons, map_nil, ← append_assoc, range_succ]
    rw [this]
  · have := h.channels
    simp only [Channels, hi] at this ⊢
    exact this

theorem inv_generate (h : Inv cfg w) (hidle : w.phase = .idle) (ht : w.timedOut = false) (hb : Breaks cfg w broken) :
    Inv cfg (w.generate cfg mode broken) := by
  have hset : Settled cfg w := by
    have := h.channels
    simpa [Channels, hidle, ht] using this
  have hac : w.outcomes.flatMap returnedIds ++ w.requests.map (·.id) = List.range w.nextRequestId := by
    simpa [hidle, Phase.requests] using h.accounted
  unfold generate
  split
  · refine ⟨⟨?_, fun ids since res hm => ?_⟩, ?_⟩
    · simpa [hidle, Phase.requests, returnedIds] using hac
    · simp only [mem_append, mem_singleton, reduceCtorEq, or_false] at hm
      exact h.results ids since res hm
    · simp only [Channels, hidle]
      exact .inr hset
  · split
    · refine ⟨⟨?_, fun ids since res hm => ?_⟩, ?_⟩
      · simpa [hidle, Phase.requests, returnedIds] using hac
      · simp only [mem_append, mem_singleton] at hm
        rcases hm with hm | hm
        · exact h.results ids since res hm
        · cases hm
          simp
      · simp only [Channels, hidle]
        exact .inr hset
    · split
      · exact ⟨matched_raise ⟨by simpa using hac, h.results⟩, .inr hset⟩
      rename_i cks hch
      have hfl := requestChunks_flatten hch
      exact inv_nextChunk ⟨by simpa using hac, h.results⟩ ⟨by simp [hfl], rfl, fun o ho => by cases ho⟩
        (le_refl _) hset hb

/-! ## Workers -/

theorem inv_setWorker (h : Inv cfg w) {k : Worker} (hlo : (w.workers rank).Lost → k.Lost)
    (hqu : (w.workers rank).Quiet → k.Quiet)
    (hoe : ∀ call tk, Owes cfg call tk rank (w.workers rank) → Owes cfg call tk rank k) :
    Inv cfg (w.setWorker rank k) := by
  have hwo : ∀ (P : Nat → Worker → Prop), (P rank (w.workers rank) → P rank k) →
      ∀ j, P j (w.workers j) → P j ((w.setWorker rank k).workers j) := by
    intro P hP j hj
    by_cases e : j = rank
    · subst e
      simpa [setWorker] using hP hj
    · simpa [setWorker, update_of_ne e] using hj
  refine ⟨⟨h.accounted, h.results⟩, ?_⟩
  have hch := h.channels
  have hph : (w.setWorker rank k).phase = w.phase := rfl
  unfold Channels at hch ⊢
  rw [hph]
  split at hch
  · refine hch.imp id (Or.imp ?_ ?_)
    · rintro ⟨j, hj, hl⟩
      exact ⟨j, hj, hwo (fun _ => Worker.Lost) hlo j hl⟩
    · exact fun hq j hj => hwo (fun _ => Worker.Quiet) hqu j (hq j hj)
  · obtain ⟨hc, hsi, hch⟩ := hch
    refine ⟨hc, hsi, hch.imp ?_ ?_⟩
    · rintro ⟨j, hj, hp, hl⟩
      exact ⟨j, hj, hp, hwo (fun _ => Worker.Lost) hlo j hl⟩
    · rintro ⟨tk, hs⟩
      refine ⟨tk, hs.since_le, hs.sent, hs.nodup, fun j hj hp => ?_, fun j hj hno => ?_⟩
      · exact hwo (Owes cfg _ tk) (hoe _ tk) j (hs.pending j hj hp)
      · exact ⟨hwo (fun _ => Worker.Quiet) hqu j (hs.received j hj hno).1, (hs.received j hj hno).2⟩

theorem correct_answer (hl : completions.length = call.chunk.length) :
    Correct cfg call tk rank (answer cfg rank ⟨tk, call.mode, call.chunk⟩ completions) := by
  unfold Correct answer
  split
  · refine ⟨_, rfl, ?_, fun r hr => ?_⟩
    · rw [map_map]
      show (call.chunk.zip completions).map (Request.id ∘ Prod.fst) = call.chunk.map Request.id
      rw [← map_map, map_fst_zip hl.ge]
    · obtain ⟨p, -, rfl⟩ := mem_map.mp hr
      rfl
  · rfl

theorem inv_work (h : Inv cfg w) (hr : (w.workers rank).status = .running)
    (hin : (w.workers rank).inbox = command :: inbox) (hlen : completions.length = command.chunk.length) :
    Inv cfg (w.setWorker rank ((w.workers rank).work cfg rank completions)) := by
  refine inv_setWorker h (fun hl => absurd hr hl.1) (fun hq => ?_) fun call tk ho => ?_
  · rw [hq.1] at hin
    cases hin
  · rcases ho with ⟨hi, hout⟩ | ⟨hi, -⟩ | ⟨hi, -⟩
    · rw [hi] at hin
      cases hin
      refine .inr (.inl ⟨?_, answer cfg rank ⟨tk, call.mode, call.chunk⟩ completions, correct_answer hlen, ?_⟩)
      · simp [Worker.work, hi]
      · simp [Worker.work, hi, hout]
    · rw [hi] at hin
      cases hin
    · rw [hi] at hin
      cases hin

theorem inv_fail (h : Inv cfg w) (hr : (w.workers rank).status = .running)
    (hin : (w.workers rank).inbox ≠ []) : Inv cfg (w.setWorker rank (w.workers rank).fail) := by
  refine inv_setWorker h (fun hl => absurd hr hl.1) (fun hq => absurd hq.1 hin) fun call tk ho => ?_
  rcases ho with ⟨-, hout⟩ | ⟨hi, -⟩ | ⟨hi, -⟩
  · exact .inr (.inr ⟨rfl, by simp [Worker.fail, hout], by simp [Worker.fail]⟩)
  · exact absurd hi hin
  · exact absurd hi hin

theorem inv_die (h : Inv cfg w) (rank : Nat) : Inv cfg (w.setWorker rank { w.workers rank with status := .dead }) := by
  refine inv_setWorker h (fun _ => ⟨by simp, .inl rfl⟩) id fun call tk ho => ?_
  exact ho.imp id (Or.imp id fun ⟨hi, hout, _⟩ => ⟨hi, hout, by simp⟩)

/-! ## Replies -/

theorem filterMap_range_single {α : Type} {f : Nat → Option α} (leader : Nat) {a : α} (hf : f leader = some a) :
    ∀ {n : Nat}, (∀ k < n, k ≠ leader → f k = none) → (List.range n).filterMap f = if leader < n then [a] else []
  | 0, _ => by simp
  | n + 1, h => by
    rw [range_succ, filterMap_append, filterMap_range_single leader hf fun k hk => h k (by omega)]
    by_cases e : n = leader
    · subst e
      simp [hf]
    · simp [h n (by omega) e, show leader < n + 1 ↔ leader < n by omega]

theorem leaderPayloads_received (h : InSync cfg w call tk) (hn : call.pending = []) :
    ∃ res, leaderPayloads cfg call = [res] ∧
      res.map (·.request) = call.chunk.map (·.id) ∧ ∀ r ∈ res, r.ticket = tk := by
  have hg : ∀ k < cfg.worldSize, ∃ pl, dictGet k call.replies = some (.result pl) ∧
      Correct cfg call tk k pl := fun k hk => (h.received k hk (by simp [hn])).2
  obtain ⟨pl, hl, hc⟩ := hg _ cfg.leader_lt
  simp only [Correct, if_true] at hc
  obtain ⟨res, rfl, hi, ht⟩ := hc
  refine ⟨res, ?_, hi, ht⟩
  unfold leaderPayloads
  rw [filterMap_range_single cfg.targetLeaderRank (by rw [hl]) fun k hk hne => ?_, if_pos cfg.leader_lt]
  obtain ⟨pl, hk', hc⟩ := hg k hk
  simp only [Correct, if_neg hne] at hc
  rw [hk', hc]

theorem collected_endChunk (hc : Collected call call.chunk) (hs : call.since ≤ tk) (hi : res.map (·.request) = call.chunk.map (·.id))
    (ht : ∀ r ∈ res, r.ticket = tk) :
    Collected { call with outputs := call.outputs ++ (call.chunk.map (·.id)).zip res } [] := by
  have hl : (call.chunk.map (·.id)).length = res.length := by
    simpa using (congrArg List.length hi).symm
  refine ⟨?_, ?_, fun o ho => ?_⟩
  · simp only [map_append, map_fst_zip hl.le, nil_append, append_assoc]
    simpa using hc.split
  · simp only [map_append, hc.request]
    rw [map_fst_zip hl.le, ← hi]
    congr 1
    rw [show ((fun o : Nat × Result => o.2.request)) = Result.request ∘ Prod.snd from rfl, ← map_map, hi,
      map_snd_zip hl.ge]
    exact hi
  · rcases mem_append.mp ho with ho | ho
    · exact hc.ticket o ho
    · exact hs.trans (ht o.2 (of_mem_zip ho).2).ge

theorem lost_popped (ho : (w.workers rank).outbox = reply :: ob)
    (hl : (w.workers k).Lost) : ((w.popped rank ob).workers k).Lost := by
  by_cases e : k = rank
  · subst e
    simp only [popped, update_self]
    refine ⟨hl.1, hl.2.imp id fun ha r hr => ha r ?_⟩
    rw [ho]
    exact mem_cons_of_mem _ hr
  · simpa [popped, update_of_ne e] using hl

theorem status_popped (rank : Nat) (ob : List Reply) (k : Nat) :
    ((w.popped rank ob).workers k).status = (w.workers k).status := by
  by_cases e : k = rank
  · subst e
    simp [popped]
  · simp [popped, update_of_ne e]

theorem inSync_received (h : InSync cfg w call tk)
    (hin : (w.workers rank).inbox = []) (hco : Correct cfg call tk rank pl) :
    InSync cfg (w.popped rank []) (call.received rank pl) tk := by
  refine ⟨h.since_le, h.sent, h.nodup.erase _, fun k hk hp => ?_, fun k hk hno => ?_⟩
  · obtain ⟨hne, hp⟩ := h.nodup.mem_erase_iff.mp hp
    have hwo : (w.popped rank []).workers k = w.workers k := update_of_ne hne _ _
    rw [hwo]
    exact h.pending k hk hp
  · by_cases e : k = rank
    · subst e
      refine ⟨?_, pl, by rw [Call.received, dictGet_dictSet, if_pos rfl], hco⟩
      simp [popped, Worker.Quiet, hin]
    have hno' : k ∉ call.pending := fun hp => hno (h.nodup.mem_erase_iff.mpr ⟨e, hp⟩)
    obtain ⟨hqu, payload', hget, hc⟩ := h.received k hk hno'
    refine ⟨?_, payload', ?_, hc⟩
    · simpa [popped, update_of_ne e] using hqu
    · simpa [Call.received, dictGet_dictSet, Ne.symm e] using hget

theorem inv_receive (h : Inv cfg w) (hph : w.phase = .receiving call)
    (hrank : rank ∈ call.pending) (hlt : rank < cfg.worldSize) (hde : ∀ k ∈ call.pending, (w.workers k).status ≠ .dead)
    (hb : Breaks cfg w broken) : Inv cfg (w.receive cfg call rank broken) := by
  have hma : MatchedIn w call.requests := h.matchedIn hph
  have hch := h.channels
  simp only [Channels, hph] at hch
  obtain ⟨hc, hsi, hch⟩ := hch
  have hra : ∀ ob failure, Settled cfg (w.popped rank ob) →
      Inv cfg ((w.popped rank ob).raise call.requests failure) := fun ob failure hs =>
    ⟨matched_raise hma, .inr hs⟩
  unfold receive
  split
  · exact h
  · rename_i ob hout
    refine hra _ _ ?_
    rcases hch with ⟨j, hj, -, hl⟩ | ⟨tk, hs⟩
    · exact .inl ⟨j, hj, lost_popped hout hl⟩
    rcases hs.pending rank hlt hrank with ⟨-, hnil⟩ | ⟨-, pl, -, hsome⟩ | ⟨-, herr, hst⟩
    · simp [hnil] at hout
    · simp [hsome] at hout
    rw [herr] at hout
    cases hout
    exact .inl ⟨rank, hlt, by simp [popped, Worker.Lost, hst]⟩
  · rename_i pl ob hout
    rcases hch with ⟨j, hj, hp, hl⟩ | ⟨tk, hs⟩
    · -- the lost worker stays pending, whatever else is read
      have hne : j ≠ rank := by
        rintro rfl
        have := (hl.2.resolve_left (hde j hp)) (.result pl) (by rw [hout]; exact mem_cons_self ..)
        cases this
      have hp' : j ∈ (call.received rank pl).pending := (mem_erase_of_ne hne).mpr hp
      rw [if_neg fun hnil => by rw [hnil] at hp'; cases hp']
      exact ⟨⟨hma.1, hma.2⟩, ⟨hc.split, hc.request, hc.ticket⟩, hsi, .inl ⟨j, hj, hp', lost_popped hout hl⟩⟩
    · rcases hs.pending rank hlt hrank with ⟨-, hnil⟩ | ⟨hin, payload', hco, hsome⟩ | ⟨-, herr, -⟩
      · simp [hnil] at hout
      · rw [hsome] at hout
        cases hout
        have hs' := inSync_received hs hin hco
        have hc' : Collected (call.received rank pl) (call.received rank pl).chunk :=
          ⟨hc.split, hc.request, hc.ticket⟩
        simp only
        split
        · rename_i hnil
          obtain ⟨res, hpa, hid, hti⟩ := leaderPayloads_received hs' hnil
          unfold endChunk
          rw [hpa]
          refine inv_nextChunk hma (collected_endChunk hc' hs.since_le hid hti) hsi
            (.inr fun k hk => (hs'.received k hk (by simp [hnil])).1) fun k hk => ⟨(hb k hk).1, ?_⟩
          rw [status_popped]
          exact (hb k hk).2
        · exact ⟨⟨hma.1, hma.2⟩, hc', hsi, .inr ⟨tk, hs'.since_le, hs'.sent, hs'.nodup, hs'.pending, hs'.received⟩⟩
      · simp [herr] at hout

theorem inv_gone (h : Inv cfg w) (hp : w.phase = .receiving call) (hlt : rank < cfg.worldSize)
    (hg : (w.workers rank).status = .dead ∨ (w.workers rank).status = .closing ∧ (w.workers rank).outbox = [])
    (failure : Failure) : Inv cfg (w.raise call.requests failure) := by
  refine ⟨matched_raise (h.matchedIn hp), .inr (.inl ⟨rank, hlt, ?_⟩)⟩
  rcases hg with hd | ⟨hcl, ho⟩
  · exact ⟨by simp [raise, hd], .inl hd⟩
  refine ⟨by simp [raise, hcl], .inr fun reply hr => ?_⟩
  simp only [raise, ho] at hr
  cases hr

theorem inv_deadline (h : Inv cfg w) (hp : w.phase = .receiving call) (failure : Failure) :
    Inv cfg ({ w with timedOut := true }.raise call.requests failure) :=
  ⟨matched_raise (h.matchedIn hp), .inl rfl⟩

/-! ## Runs -/

theorem inv_init : Inv cfg init := by
  refine ⟨⟨rfl, fun ids since res hm => by cases hm⟩, .inr (.inr fun k _ => ⟨rfl, rfl⟩)⟩

theorem inv_step (h : Inv cfg w) (ha : Allowed cfg w e) (hu : Untimed w e) : Inv cfg (w.step cfg e) := by
  cases e with
  | addRequest pr maxTokens => exact inv_addRequest h ha pr maxTokens
  | generate mode broken => exact inv_generate h ha.1 hu ha.2
  | work rank completions =>
    obtain ⟨-, hrun, command, inbox, hin, hlen⟩ := ha
    exact inv_work h hrun hin hlen
  | fail rank => exact inv_fail h ha.2.1 ha.2.2
  | die rank => exact inv_die h rank
  | receive rank broken =>
    obtain ⟨hlt, call, hph, hrank, -, hde, hb⟩ := ha
    simp only [step, inCall, hph]
    exact inv_receive h hph hrank hlt hde hb
  | gone rank =>
    obtain ⟨hlt, call, hph, -, hgo⟩ := ha
    simp only [step, inCall, hph]
    exact inv_gone h hph hlt hgo _
  | deadline =>
    obtain ⟨call, hph⟩ := ha
    simp only [step, inCall, hph]
    exact inv_deadline h hph _

/-- As long as no batch follows a call that has timed out, replies and requests match. -/
theorem replies_match (events : List Event)
    (h : Guarded (World.step cfg) (fun w e => Allowed cfg w e ∧ Untimed w e) World.init events) :
    Matched (events.foldl (World.step cfg) World.init) := by
  have hi := Guarded.inv (P := Inv cfg) (fun _ _ hw he => inv_step hw he.1 he.2) inv_init h
  exact hi.toMatched

/-! ## Two workers -/

theorem breaks_none : Breaks cfg w none := fun k hk => by cases hk

def twoWorkers : Config where
  maxModelLen := 64
  maxNumSeqs := 4
  maxNumBatchedTokens := 64
  gamma := some 2
  enableContinuousBatching := false
  worldSize := 2
  targetLeaderRank := 1
  leader_lt := by decide

def oneBatch : List Event :=
  [.addRequest [7] 4, .generate .pearl none, .work 1 [[3, 3]], .work 0 [[]], .receive 0 none, .receive 1 none]

theorem replies_match_oneBatch : Matched (oneBatch.foldl (World.step twoWorkers) World.init) ∧
    (oneBatch.foldl (World.step twoWorkers) World.init).outcomes = [.returned [0] 0 [⟨0, 0, [3, 3]⟩]] := by
  refine ⟨replies_match oneBatch ?_, rfl⟩
  refine ⟨⟨rfl, trivial⟩, ⟨⟨rfl, breaks_none⟩, rfl⟩, ⟨⟨by decide, rfl, _, _, rfl, rfl⟩, trivial⟩,
    ⟨⟨by decide, rfl, _, _, rfl, rfl⟩, trivial⟩, ⟨⟨by decide, _, rfl, ?_, ?_, ?_, breaks_none⟩, trivial⟩,
    ⟨⟨by decide, _, rfl, ?_, ?_, ?_, breaks_none⟩, trivial⟩, trivial⟩
  all_goals decide

/-- The deadline passes while the workers compute, and the next call reads the answer to the first command. -/
def lateBatch : List Event :=
  [.addRequest [7] 4, .generate .pearl none, .deadline, .addRequest [8] 4, .generate .pearl none,
    .work 1 [[3, 3]], .work 0 [[]], .receive 0 none, .receive 1 none]

theorem late_reply_taken : Guarded (World.step twoWorkers) (Allowed twoWorkers) World.init lateBatch ∧
    (∃ failure, (lateBatch.foldl (World.step twoWorkers) World.init).outcomes =
      [.failed failure, .returned [0, 1] 1 [⟨0, 0, [3, 3]⟩]]) ∧
    (lateBatch.foldl (World.step twoWorkers) World.init).requests = [] ∧
    ¬ Matched (lateBatch.foldl (World.step twoWorkers) World.init) := by
  refine ⟨?_, ⟨_, rfl⟩, rfl, fun h => ?_⟩
  · refine ⟨rfl, ⟨rfl, breaks_none⟩, ⟨_, rfl⟩, rfl, ⟨rfl, breaks_none⟩, ⟨by decide, rfl, _, _, rfl, rfl⟩,
      ⟨by decide, rfl, _, _, rfl, rfl⟩, ⟨by decide, _, rfl, ?_, ?_, ?_, breaks_none⟩,
      ⟨by decide, _, rfl, ?_, ?_, ?_, breaks_none⟩, trivial⟩
    all_goals decide
  · have := (h.results [0, 1] 1 [⟨0, 0, [3, 3]⟩] (mem_of_getElem? (i := 1) rfl)).1
    simp at this

end VllmAscend.Controller
