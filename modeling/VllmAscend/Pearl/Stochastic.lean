import VllmAscend.Lib.Law
import VllmAscend.Pearl.StateSound

/-!
# Sampled verification keeps the target's law

Every candidate is accepted with the probability that the target gives it, and
otherwise replaced by a token of the target's law without it. So the tokens of
any number of windows and rounds are distributed as the target's own.
-/

namespace VllmAscend

open Python PearlPipelineState List Law Prod

/-! ## The target's own sampling -/

structure TargetLaw where
  next : List Int → Law Int
  tokens : ∀ x, (next x).All (0 ≤ ·)

namespace TargetLaw

def autoregress (T : TargetLaw) : Nat → List Int → Law (List Int)
  | 0, x => .pure x
  | k + 1, x => (T.next x).bind fun v => T.autoregress k (x ++ [v])

def extendTo (T : TargetLaw) (n : Nat) (x : List Int) : Law (List Int) :=
  (T.autoregress (n - x.length) x).map (List.take n)

def extendAll (T : TargetLaw) (n : Nat) : List (List Int) → Law (List (List Int))
  | [] => .pure []
  | x :: xs => (T.extendTo n x).bind fun y => (T.extendAll n xs).map (y :: ·)

theorem extendTo_of_le (T : TargetLaw) (h : n ≤ x.length) (f : List Int → ℚ) :
    (T.extendTo n x).mean f = f (x.take n) := by
  rw [extendTo, Nat.sub_eq_zero_of_le h, autoregress, mean_map, mean_pure]

theorem extendTo_of_lt (T : TargetLaw) (h : x.length < n) (f : List Int → ℚ) :
    (T.extendTo n x).mean f = (T.next x).mean fun v => (T.extendTo n (x ++ [v])).mean f := by
  have hl : n - x.length = n - (x.length + 1) + 1 := by omega
  simp only [extendTo, hl, autoregress, mean_map, mean_bind, length_append, length_singleton]

theorem extendAll_of_le (T : TargetLaw) : ∀ {xs : List (List Int)} (f : List (List Int) → ℚ),
    (∀ x ∈ xs, n ≤ x.length) → (T.extendAll n xs).mean f = f (xs.map (take n))
  | [], f, _ => mean_pure [] f
  | x :: xs, f, h => by
    obtain ⟨hx, hxs⟩ := forall_mem_cons.mp h
    rw [extendAll, mean_bind, T.extendTo_of_le hx, mean_map, T.extendAll_of_le _ hxs, map_cons]

end TargetLaw

/-! ## Verdicts on sampled rows -/

def commitRow : List Int → List (Bool × Int) → List Int
  | c :: w, (true, _) :: d => c :: commitRow w d
  | _ :: _, (false, v) :: _ => [v]
  | _, _ => []

def nativeCommit (gamma : Nat) (windows : List (List Int)) (draws : List (Bool × Int)) :
    Except PyError (List (List Int)) := do
  let rows ← buildVerdictFromAcceptance (draws.map Prod.fst) (draws.map Prod.snd) (windows.map List.length) gamma
  .ok (List.zipWith (fun w v => w.take v.1 ++ (decodeCorrection v.2).toList) windows rows)

structure VerificationRow where
  acceptedPrefixLength : Nat
  correctionTokenId : Option Int
  finished : Bool

def verifyRows (eosTokenIds : List Int) : List (List Int) → List Bool → List Int → List VerificationRow
  | [], _, _ => []
  | candidates :: rows, acceptedMask, correctionIds =>
    let accepted := acceptedMask.take candidates.length
    let acceptedLength := accepted.findIdx (!·)
    let correction := if acceptedLength = candidates.length then none else correctionIds[acceptedLength]?
    let committed := candidates.take acceptedLength ++ correction.toList
    ⟨acceptedLength, correction, committed.any (· ∈ eosTokenIds)⟩ ::
      verifyRows eosTokenIds rows (acceptedMask.drop candidates.length) (correctionIds.drop candidates.length)

def verifyCommit (eosTokenIds : List Int) (windows : List (List Int)) (draws : List (Bool × Int)) :
    Except PyError (List (List Int)) :=
  .ok (List.zipWith (fun w r => w.take r.acceptedPrefixLength ++ r.correctionTokenId.toList) windows
    (verifyRows eosTokenIds windows (draws.map Prod.fst) (draws.map Prod.snd)))

def Draws (w : List Int) (d : List (Bool × Int)) : Prop := d.length = w.length ∧ ∀ p ∈ d, 0 ≤ p.2

theorem commitRow_eq : ∀ {w : List Int} {d : List (Bool × Int)}, d.length = w.length →
    commitRow w d = w.take ((d.map fst).findIdx (!·)) ++ ((d.map snd)[(d.map fst).findIdx (!·)]?).toList
  | [], [], _ => rfl
  | c :: w, (true, v) :: d, h => by
    have ih := commitRow_eq (by simpa using h)
    simp [commitRow, ih, findIdx_cons]
  | c :: w, (false, v) :: d, h => by simp [commitRow, findIdx_cons]

section

theorem snd_nonneg (h : Draws w d) : ∀ v ∈ d.map snd, 0 ≤ v := by
  intro v hv
  obtain ⟨p, hp, rfl⟩ := mem_map.mp hv
  exact h.2 p hp

theorem take_rowVerdict (h : Draws w d) : w.take (rowVerdict (d.map fst) (d.map snd)).1 ++
      (decodeCorrection (rowVerdict (d.map fst) (d.map snd)).2).toList = commitRow w d := by
  rw [rowVerdict_correction (by simp) (snd_nonneg h), commitRow_eq h.1]
  congr 2
  rw [show (d.map fst).length = (d.map snd).length by simp]
  split
  · next hlt =>
    rw [getD_eq_getElem _ _ hlt]
    exact (getElem?_eq_getElem hlt).symm
  · next hge => exact (getElem?_eq_none (Nat.le_of_not_lt hge)).symm

theorem applyTargetVerification_commitRow (hg : 0 < γ) {s : PearlPipelineState} (h : s.RowOk γ)
    {next : List Int} (hn : 0 < next.length ∧ next.length ≤ γ) (hd : Draws (s.candidates next) d) :
    (s.applyTargetVerification γ (rowVerdict (d.map fst) (d.map snd)).1
      (decodeCorrection (rowVerdict (d.map fst) (d.map snd)).2) next).map committed =
      .ok (s.committed ++ commitRow (s.candidates next) d) := by
  have hs : (d.map fst).length = s.windowSize γ := by
    rw [length_map, hd.1, length_candidates h hn.1]
  have hle := rowVerdict_le (d.map fst) (d.map snd)
  have hv : s.VerdictOk γ (rowVerdict (d.map fst) (d.map snd)).1
      (decodeCorrection (rowVerdict (d.map fst) (d.map snd)).2) next := by
    refine ⟨hs ▸ hle, ?_, hn.1, hn.2⟩
    rw [rowVerdict_correction (by simp) (snd_nonneg hd), hs]
    split <;> simp_all
  rw [applyTargetVerification_ok h hv hg (.inl rfl), Except.map,
    committed_verified h hv, append_assoc, take_rowVerdict hd]

section
variable (h : List.Forall₂ Draws ws ds)
include h

theorem verdictRows_flatten (hws : ∀ w ∈ ws, w.length ≤ γ) :
    verdictRows γ (ws.map length) (ds.flatten.map fst) (ds.flatten.map snd) =
      ds.map fun d => rowVerdict (d.map fst) (d.map snd) := by
  have hl : ds.map length = ws.map length := by
    induction h with
    | nil => rfl
    | cons hd _ ih => rw [map_cons, map_cons, hd.1, ih (forall_mem_cons.mp hws).2]
  have hle : ∀ d ∈ ds, d.length ≤ γ := by
    have ha : ∀ n ∈ ds.map length, n ≤ γ := hl ▸ forall_mem_map.mpr hws
    exact forall_mem_map.mp ha
  have hr := verdictRows_rows γ (map snd) (map fst) ds fun d hd => by simpa using hle d hd
  simpa [map_flatten, flatMap_def, hl] using hr

theorem zipWith_commitRow {β : Type} (commit : List Int → β → List Int) (verdict : List (Bool × Int) → β)
    (hco : ∀ w d, Draws w d → commit w (verdict d) = commitRow w d) :
    zipWith commit ws (ds.map verdict) = zipWith commitRow ws ds := by
  induction h with
  | nil => rfl
  | @cons w d _ _ hd _ ih => rw [map_cons, zipWith_cons_cons, zipWith_cons_cons, hco w d hd, ih]

theorem length_flatten_draws : ds.flatten.length = (ws.map length).sum := by
  induction h with
  | nil => rfl
  | cons hd _ ih => rw [flatten_cons, length_append, map_cons, sum_cons, hd.1, ih]

theorem nativeCommit_eq (hg : 0 < γ) (hws : ∀ w ∈ ws, 0 < w.length ∧ w.length ≤ γ) :
    nativeCommit γ ws ds.flatten = .ok (zipWith commitRow ws ds) := by
  have hl := length_flatten_draws h
  have hs : ¬ (γ = 0 ∨ ((ws.map length).any fun size => decide (size = 0 ∨ γ < size)) = true) := by
    simp only [any_map, any_eq_true, Function.comp_apply, decide_eq_true_eq, not_or, not_exists, not_and]
    exact ⟨by omega, fun w hw => by have := hws w hw; omega⟩
  unfold nativeCommit buildVerdictFromAcceptance
  rw [if_neg hs, if_neg (by simp only [length_map, hl]; simp)]
  have hr := zipWith_commitRow h (fun w (v : Nat × Int) => w.take v.1 ++ (decodeCorrection v.2).toList) _
    fun w d => take_rowVerdict
  rw [← verdictRows_flatten h fun w hw => (hws w hw).2] at hr
  exact congrArg Except.ok hr

theorem verifyCommit_eq (eosTokenIds : List Int) :
    verifyCommit eosTokenIds ws ds.flatten = .ok (zipWith commitRow ws ds) := by
  induction h with
  | nil => rfl
  | @cons w d _ _ hd _ ih =>
    unfold verifyCommit at ih ⊢
    rw [verifyRows, flatten_cons, map_append, map_append, take_left' (by simp [hd.1]),
      drop_left' (by simp [hd.1]), drop_left' (by simp [hd.1]), zipWith_cons_cons,
      zipWith_cons_cons, commitRow_eq hd.1]
    simp only [Except.ok.injEq] at ih ⊢
    have hle : (d.map fst).findIdx (!·) ≤ (d.map fst).length := findIdx_le_length
    rw [length_map, hd.1] at hle
    congr 3
    split
    · next heq => rw [getElem?_eq_none (by simp [heq, hd.1])]
    · next hne => rw [getElem?_append_left (by rw [length_map, hd.1]; omega)]

omit h in
theorem length_commitRow_pos (hw : w ≠ []) (h : Draws w d) : 0 < (commitRow w d).length := by
  obtain ⟨c, w, rfl⟩ := exists_cons_of_ne_nil hw
  obtain ⟨⟨accepted, v⟩, d, rfl⟩ := exists_cons_of_length_pos (by rw [h.1]; simp)
  cases accepted <;> simp [commitRow]

theorem le_length_committed (hws : ∀ w ∈ ws, w ≠ []) (hxs : ∀ x ∈ xs, n ≤ x.length + (k + 1)) :
    ∀ z ∈ zipWith (· ++ ·) xs (zipWith commitRow ws ds), n ≤ z.length + k := by
  induction h generalizing xs with
  | nil => simp
  | cons hd h ih =>
    cases xs with
    | nil => simp
    | cons x xs =>
      obtain ⟨hw, hws⟩ := forall_mem_cons.mp hws
      obtain ⟨hx, hxs⟩ := forall_mem_cons.mp hxs
      have hp := length_commitRow_pos hw hd
      rw [zipWith_cons_cons, zipWith_cons_cons, forall_mem_cons]
      exact ⟨by rw [length_append]; omega, ih hws hxs⟩

end

end

/-! ## A window -/

section
variable (T : TargetLaw) (spare : List Int → Int → {l : Law Int // l.All (0 ≤ ·)})

/-- The masked logits of a candidate that has all the mass have no law; `spare` is what is sampled from them. -/
def correctionLaw (x : List Int) (c : Int) : Law Int :=
  if h : (T.next x).prob c ≠ 1 then (T.next x).without c h else (spare x c).1

def rowDraws : List Int → List Int → Law (List (Bool × Int))
  | _, [] => .pure []
  | x, c :: w =>
    (Law.flip ((T.next x).prob c) (Law.prob_nonneg ..) (Law.prob_le_one ..)).bind fun accepted =>
      (correctionLaw T spare x c).bind fun v => (rowDraws (x ++ [c]) w).map ((accepted, v) :: ·)

def batchDraws : List (List Int) → List (List Int) → Law (List (List (Bool × Int)))
  | x :: xs, w :: ws => (rowDraws T spare x w).bind fun d => (batchDraws xs ws).map (d :: ·)
  | _, _ => .pure []

theorem mean_correctionLaw (x : List Int) (c : Int) (f : Int → ℚ) :
    (T.next x).prob c * f c + (1 - (T.next x).prob c) * (correctionLaw T spare x c).mean f = (T.next x).mean f := by
  unfold correctionLaw
  split
  · next h => exact (mean_split _ c h f).symm
  rename_i h
  rw [not_not] at h
  rw [h, mean_of_prob_one _ c h f]
  ring

theorem mean_rowDraws (n : Nat) (f : List Int → ℚ) : ∀ (w x : List Int),
    ((rowDraws T spare x w).mean fun d => (T.extendTo n (x ++ commitRow w d)).mean f) = (T.extendTo n x).mean f
  | [], x => by simp [rowDraws, mean_pure, commitRow]
  | c :: w, x => by
    by_cases hn : n ≤ x.length
    · have ha : ∀ t : List Int, (T.extendTo n (x ++ t)).mean f = (T.extendTo n x).mean f := fun t => by
        rw [T.extendTo_of_le hn, T.extendTo_of_le (by simp; omega), take_append_of_le_length hn]
      simp only [ha, mean_const]
    have ih := mean_rowDraws n f w (x ++ [c])
    simp only [rowDraws, mean_bind, mean_map, mean_flip, commitRow, mean_const, append_assoc,
      cons_append, nil_append] at ih ⊢
    rw [ih, T.extendTo_of_lt (Nat.lt_of_not_le hn), ← mean_correctionLaw T spare x c]

theorem mean_batchDraws (n : Nat) : ∀ (xs ws : List (List Int)) (f : List (List Int) → ℚ), ws.length = xs.length →
    ((batchDraws T spare xs ws).mean fun ds =>
      (T.extendAll n (zipWith (· ++ ·) xs (zipWith commitRow ws ds))).mean f) = (T.extendAll n xs).mean f
  | [], [], f, _ => by simp [batchDraws, mean_pure]
  | x :: xs, w :: ws, f, h => by
    have ih := fun g => mean_batchDraws n xs ws g (by simpa using h)
    simp only [batchDraws, mean_bind, mean_map, zipWith_cons_cons, TargetLaw.extendAll]
    simp only [mean_comm (batchDraws T spare xs ws), ih]
    exact mean_rowDraws T spare n _ w x

theorem all_correctionLaw (x : List Int) (c : Int) : (correctionLaw T spare x c).All (0 ≤ ·) := by
  unfold correctionLaw
  split
  · intro q hq
    obtain ⟨p, hp, rfl⟩ := mem_map.mp hq
    exact T.tokens x p (mem_of_mem_filter hp)
  · exact (spare x c).2

theorem all_rowDraws : ∀ (w x : List Int), (rowDraws T spare x w).All (Draws w)
  | [], _ => all_pure ⟨rfl, by simp⟩
  | c :: w, x => by
    refine all_bind (P := fun _ => True) (fun _ _ => trivial) fun accepted _ =>
      all_bind (all_correctionLaw T spare x c) fun v hv => all_map (all_rowDraws w _) fun d hd => ?_
    exact ⟨congrArg (· + 1) hd.1, forall_mem_cons.mpr ⟨hv, hd.2⟩⟩

theorem all_batchDraws : ∀ (xs ws : List (List Int)), ws.length = xs.length →
    (batchDraws T spare xs ws).All (List.Forall₂ Draws ws)
  | [], [], _ => all_pure .nil
  | x :: xs, w :: ws, h => all_bind (all_rowDraws T spare w x) fun _ hd =>
    all_map (all_batchDraws xs ws (by simpa using h)) fun _ hds => .cons hd hds

end

/-! ## Rounds -/

structure Proposer (H : Type) (Valid : List Int → Prop) where
  choose : H → List (List Int) → Law (H × List (List Int))
  valid : ∀ h xs, (choose h xs).All fun c => c.2.length = xs.length ∧ ∀ w ∈ c.2, Valid w

def onOk {α β : Type} (k : α → Law (Except PyError β)) : Except PyError α → Law (Except PyError β)
  | .ok a => k a
  | .error e => .pure (.error e)

section
variable (T : TargetLaw) (spare : List Int → Int → {l : Law Int // l.All (0 ≤ ·)})
  (commit : List (List Int) → List (Bool × Int) → Except PyError (List (List Int)))
  {H : Type} {Valid : List Int → Prop} (proposer : Proposer H Valid)

def sampledRound (y : H × List (List Int)) : Law (Except PyError (H × List (List Int))) :=
  (proposer.choose y.1 y.2).bind fun c => (batchDraws T spare y.2 c.2).map fun ds =>
    (commit c.2 ds.flatten).map fun us => (c.1, List.zipWith (· ++ ·) y.2 us)

def sampledRounds : Nat → H × List (List Int) → Law (Except PyError (H × List (List Int)))
  | 0, y => .pure (.ok y)
  | k + 1, y => (sampledRound T spare commit proposer y).bind (onOk (sampledRounds k))

/-- After any number of rounds what is committed, continued by the target, has the law of the target's own sampling. -/
def KeepsLaw : Prop := ∀ (k n : Nat) (y : H × List (List Int)),
  Law.Same ((sampledRounds T spare commit proposer k y).bind (onOk fun z => (T.extendAll n z.2).map .ok))
    ((T.extendAll n y.2).map .ok) ∧
  ((∀ w, Valid w → w ≠ []) → (∀ x ∈ y.2, n ≤ x.length + k) →
    Law.Same ((sampledRounds T spare commit proposer k y).map (Except.map fun z => z.2.map (List.take n)))
      ((T.extendAll n y.2).map .ok))

variable {commit} (hco : ∀ ws ds, (∀ w ∈ ws, Valid w) → List.Forall₂ Draws ws ds →
  commit ws ds.flatten = .ok (List.zipWith commitRow ws ds))
include hco

theorem mean_sampledRound (y : H × List (List Int)) (f : Except PyError (H × List (List Int)) → ℚ) :
    (sampledRound T spare commit proposer y).mean f = (proposer.choose y.1 y.2).mean fun c =>
      (batchDraws T spare y.2 c.2).mean fun ds =>
        f (.ok (c.1, zipWith (· ++ ·) y.2 (zipWith commitRow c.2 ds))) := by
  rw [sampledRound, mean_bind]
  refine mean_congr (proposer.valid y.1 y.2) fun c hc => ?_
  rw [mean_map]
  refine mean_congr (all_batchDraws T spare y.2 c.2 hc.1) fun ds hds => ?_
  rw [hco c.2 ds hc.2 hds]
  rfl

theorem extendAll_sampledRounds (n : Nat) (f : Except PyError (List (List Int)) → ℚ) :
    ∀ (k : Nat) (y : H × List (List Int)),
      ((sampledRounds T spare commit proposer k y).mean fun r =>
        (onOk (fun z => (T.extendAll n z.2).map .ok) r).mean f) = (T.extendAll n y.2).mean fun ys => f (.ok ys)
  | 0, y => by rw [sampledRounds, mean_pure, onOk, mean_map]
  | k + 1, y => by
    have ih := extendAll_sampledRounds n f k
    rw [sampledRounds, mean_bind, mean_sampledRound T spare proposer hco]
    simp only [onOk] at ih ⊢
    simp only [ih]
    rw [mean_congr (proposer.valid y.1 y.2) fun c hc => mean_batchDraws T spare n y.2 c.2 _ hc.1, mean_const]

theorem take_sampledRounds (hne : ∀ w, Valid w → w ≠ []) (n : Nat) (f : Except PyError (List (List Int)) → ℚ) :
    ∀ (k : Nat) (y : H × List (List Int)), (∀ x ∈ y.2, n ≤ x.length + k) →
      ((sampledRounds T spare commit proposer k y).mean fun r => f (r.map fun z => z.2.map (take n))) =
        (T.extendAll n y.2).mean fun ys => f (.ok ys)
  | 0, y, hy => by
    rw [sampledRounds, mean_pure, T.extendAll_of_le _ hy]
    rfl
  | k + 1, y, hy => by
    rw [sampledRounds, mean_bind, mean_sampledRound T spare proposer hco,
      ← mean_const _ ((T.extendAll n y.2).mean fun ys => f (.ok ys))]
    refine mean_congr (proposer.valid y.1 y.2) fun c hc => ?_
    rw [← mean_batchDraws T spare n y.2 c.2 _ hc.1]
    refine mean_congr (all_batchDraws T spare y.2 c.2 hc.1) fun ds hds => ?_
    exact take_sampledRounds hne n f k _ (le_length_committed hds (fun w hw => hne w (hc.2 w hw)) hy)

theorem keepsLaw_of_commit : KeepsLaw T spare commit proposer := by
  intro k n y
  refine ⟨fun f => ?_, fun hne hy f => ?_⟩
  · rw [mean_bind, mean_map]
    exact extendAll_sampledRounds T spare proposer hco n f k y
  · rw [mean_map, mean_map]
    exact take_sampledRounds T spare proposer hco hne n f k y hy

end

/-- Both verifiers keep the target's law, whoever proposes, and the state commits what the verdict of its row says. -/
theorem sampled_verification_lossless {gamma : Nat} (hg : 0 < gamma) (eosTokenIds : List Int) (T : TargetLaw)
    (spare : List Int → Int → {l : Law Int // l.All (0 ≤ ·)}) {H : Type} {Valid : List Int → Prop}
    (native : Proposer H fun w => 0 < w.length ∧ w.length ≤ gamma) (service : Proposer H Valid) :
    KeepsLaw T spare (nativeCommit gamma) native ∧ KeepsLaw T spare (verifyCommit eosTokenIds) service ∧
    ∀ (s : PearlPipelineState) (next : List Int) (d : List (Bool × Int)), s.RowOk gamma →
      0 < next.length ∧ next.length ≤ gamma → Draws (s.candidates next) d →
      (s.applyTargetVerification gamma (rowVerdict (d.map Prod.fst) (d.map Prod.snd)).1
        (decodeCorrection (rowVerdict (d.map Prod.fst) (d.map Prod.snd)).2) next).map PearlPipelineState.committed =
        .ok (s.committed ++ commitRow (s.candidates next) d) :=
  ⟨keepsLaw_of_commit T spare native fun _ _ hws h => nativeCommit_eq h hg hws,
    keepsLaw_of_commit T spare service fun _ _ _ h => verifyCommit_eq h eosTokenIds,
    fun _ _ _ h hn hd => applyTargetVerification_commitRow hg h hn hd⟩

def biasedTarget : TargetLaw where
  next _ := (Law.flip (1 / 3) (by norm_num) (by norm_num)).map fun b => if b then 0 else 1
  tokens _ := Law.all_map (P := fun _ => True) (fun _ _ => trivial) fun b _ => by cases b <;> decide

def zeroProposer : Proposer Unit fun w => 0 < w.length ∧ w.length ≤ 2 where
  choose h xs := .pure (h, xs.map fun _ => [0, 0])
  valid _ _ := Law.all_pure ⟨by simp, by simp⟩

theorem sampled_verification_lossless_biased :
    KeepsLaw biasedTarget (fun _ _ => ⟨.pure 0, Law.all_pure (Int.le_refl 0)⟩) (nativeCommit 2) zeroProposer ∧
    KeepsLaw biasedTarget (fun _ _ => ⟨.pure 0, Law.all_pure (Int.le_refl 0)⟩) (verifyCommit [1]) zeroProposer := by
  have h := sampled_verification_lossless Nat.two_pos [1] biasedTarget
    (fun _ _ => ⟨.pure 0, all_pure (Int.le_refl 0)⟩) zeroProposer zeroProposer
  exact ⟨h.1, h.2.1⟩

end VllmAscend
