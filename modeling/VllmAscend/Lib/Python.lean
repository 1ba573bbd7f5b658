import Mathlib.Data.Rat.Floor

/-!
# Python values: errors and list slices

Exceptions with their texts, the rules that read a chain of checks, the slices
`l[-k:]` and `del l[-k:]`, which at `k = 0` mean the whole list, dictionaries in
insertion order, and `round`.
-/

namespace Python

open List

inductive PyError where
  | valueError (message : String)
  | runtimeError (message : String)
  | keyError (message : String)
  | indexError (message : String)
  | typeError (message : String)
  | assertionError (message : String)
  | stopIteration
deriving DecidableEq, Repr

/-- `math.ceil(a / b)` and `cdiv(a, b)`. -/
def ceilDiv (a b : Nat) : Nat := (a + b - 1) / b

theorem lt_of_getElem? {α : Type*} {l : List α} {i : Nat} {a : α} (h : l[i]? = some a) : i < l.length :=
  (List.getElem?_eq_some_iff.mp h).1

section
variable {ε : Type*} {α β : Type} {c : Prop} [Decidable c] {e : ε} {x : Except ε β} {b : β}

@[simp] theorem ok_bind {a : α} {f : α → Except ε β} : (Except.ok a >>= f) = f a := rfl

@[simp] theorem error_bind {f : α → Except ε β} : (Except.error e >>= f) = .error e := rfl

@[simp] theorem pure_eq_ok : (pure b : Except ε β) = .ok b := rfl

theorem bind_ok {y : Except ε α} {f : α → Except ε β} : (y >>= f) = .ok b ↔ ∃ a, y = .ok a ∧ f a = .ok b := by
  cases y <;> simp

theorem mapError_ok {ε' : Type*} {y : Except ε α} {f : ε → ε'} {a : α} : y.mapError f = .ok a ↔ y = .ok a := by
  cases y <;> simp [Except.mapError]

theorem toOption_eq_some {y : Except ε α} {a : α} : y.toOption = some a ↔ y = .ok a := by
  cases y <;> simp [Except.toOption]

def raisedBy (y : Except ε α) : Option ε :=
  match y with
  | .error e => some e
  | .ok _ => none

theorem eq_error_of_raisedBy {y : Except ε α} (h : raisedBy y = some e) : y = .error e := by
  cases y with
  | error e' => cases h; rfl
  | ok a => cases h

theorem ite_throw : (if c then throw e else x) = .ok b ↔ ¬ c ∧ x = .ok b := by
  by_cases hc : c <;> simp [hc, throw, throwThe, MonadExceptOf.throw]

/-- A check that raises, in the form a `do` block gives it. -/
theorem ite_throw_bind {k : α → Except ε β} : (if c then throw e >>= k else x) = .ok b ↔ ¬ c ∧ x = .ok b := by
  by_cases hc : c <;> simp [hc, throw, throwThe, MonadExceptOf.throw]

theorem forM_ok {f : α → Except ε Unit} {u : Unit} : ∀ {l : List α}, l.forM f = .ok u ↔ ∀ a ∈ l, f a = .ok ()
  | [] => by simp [List.forM, pure, Except.pure]
  | a :: l => by
    rw [List.forM, bind_ok, forall_mem_cons, ← forM_ok]
    exact ⟨fun ⟨_, h, h'⟩ => ⟨h, h'⟩, fun h => ⟨(), h⟩⟩

theorem mapM_ok {f : α → Except ε β} {g : α → β} : ∀ {l : List α}, (∀ a ∈ l, f a = .ok (g a)) → l.mapM f = .ok (l.map g)
  | [], _ => rfl
  | a :: l, h => by
    rw [mapM_cons, h a (by simp), mapM_ok fun a ha => h a (mem_cons_of_mem _ ha)]; rfl

theorem mapM_forall₂ {f : α → Except ε β} {R : α → β → Prop} : ∀ {l : List α},
    (∀ a ∈ l, ∃ b, f a = .ok b ∧ R a b) → ∃ bs, l.mapM f = .ok bs ∧ List.Forall₂ R l bs
  | [], _ => ⟨[], rfl, .nil⟩
  | a :: l, h => by
    obtain ⟨b, hb, hR⟩ := h a (by simp)
    obtain ⟨bs, hbs, hRs⟩ := mapM_forall₂ fun a ha => h a (mem_cons_of_mem _ ha)
    exact ⟨b :: bs, by rw [mapM_cons, hb, hbs]; rfl, .cons hR hRs⟩

theorem forall₂_getElem? {α β : Type*} {R : α → β → Prop} : ∀ {l1 : List α} {l2 : List β}, List.Forall₂ R l1 l2 →
    ∀ (i : Nat) (a : α) (b : β), l1[i]? = some a → l2[i]? = some b → R a b
  | _, _, .cons h _, 0, _, _, ha, hb => by cases ha; cases hb; exact h
  | _, _, .cons _ t, i + 1, a, b, ha, hb => forall₂_getElem? t i a b ha hb

theorem mapM_total {f : α → Except ε β} {l : List α} (h : ∀ a ∈ l, ∃ b, f a = .ok b) : ∃ bs, l.mapM f = .ok bs := by
  obtain ⟨bs, hbs, -⟩ := mapM_forall₂ (R := fun _ _ => True) fun a ha => (h a ha).imp fun _ hb => ⟨hb, trivial⟩
  exact ⟨bs, hbs⟩

theorem foldlM_inv {σ : Type} {P : σ → Prop} {f : σ → α → Except ε σ} : ∀ {l : List α} {s s' : σ},
    (∀ a ∈ l, ∀ s s', P s → f s a = .ok s' → P s') → P s → l.foldlM f s = .ok s' → P s'
  | [], _, _, _, hs, h => by
    cases h
    exact hs
  | a :: l, _, _, hstep, hs, h => by
    obtain ⟨s1, h1, h⟩ := bind_ok.mp h
    exact foldlM_inv (fun a ha => hstep a (mem_cons_of_mem _ ha)) (hstep a (by simp) _ _ hs h1) h

theorem mapM_cons_ok {f : α → Except ε β} {a : α} {l : List α} {bs : List β} :
    (a :: l).mapM f = .ok bs ↔ ∃ b rest, f a = .ok b ∧ l.mapM f = .ok rest ∧ bs = b :: rest := by
  rw [mapM_cons, bind_ok]
  constructor
  · rintro ⟨b, hb, h⟩
    obtain ⟨rest, hr, h⟩ := bind_ok.mp h
    cases h
    exact ⟨b, rest, hb, hr, rfl⟩
  · rintro ⟨b, rest, hb, hr, rfl⟩
    exact ⟨b, hb, bind_ok.mpr ⟨rest, hr, rfl⟩⟩

theorem exists_of_mapM {f : α → Except ε β} {a : α} : ∀ {l : List α} {bs : List β}, l.mapM f = .ok bs → a ∈ l →
    ∃ b, f a = .ok b
  | a' :: l, bs, h, ha => by
    obtain ⟨b, rest, hb, hr, -⟩ := mapM_cons_ok.mp h
    rcases mem_cons.mp ha with rfl | ha
    · exact ⟨b, hb⟩
    · exact exists_of_mapM hr ha

theorem mem_mapM {f : α → Except ε β} : ∀ {l : List α} {bs : List β}, l.mapM f = .ok bs →
    (b ∈ bs ↔ ∃ a ∈ l, f a = .ok b)
  | [], bs, h => by
    cases h
    simp
  | a :: l, bs, h => by
    obtain ⟨b', rest, hb', hr, rfl⟩ := mapM_cons_ok.mp h
    rw [mem_cons, mem_mapM hr, exists_mem_cons_iff, hb', Except.ok.injEq, eq_comm]

end

/-! ## Checks of values that are not given -/

theorem noneRat_pos : ∀ x : ℚ, none = some x → 0 < x := by simp

theorem noneNat_pos : ∀ n : Nat, none = some n → 0 < n := by simp

theorem zeroRat_nonneg : (0 : ℚ) ≤ 0 := le_refl 0

instance (priority := high) neZero_succ (n : Nat) : NeZero (n + 1) := ⟨Nat.succ_ne_zero n⟩

instance (priority := high) neZero_two : NeZero 2 := ⟨by decide⟩

/-- `l[-k:]`. -/
def lastN {α : Type*} (k : Nat) (l : List α) : List α :=
  if k = 0 then l else l.drop (l.length - k)

def delLast {α : Type*} (k : Nat) (l : List α) : List α :=
  if k = 0 then [] else l.take (l.length - k)

/-- `d[key] = value`, for the items of `d` in insertion order. -/
def dictSet {α β : Type*} [DecidableEq α] (key : α) (value : β) : List (α × β) → List (α × β)
  | [] => [(key, value)]
  | item :: items => if item.1 = key then (key, value) :: items else item :: dictSet key value items

section
variable {α β : Type*} [DecidableEq α] {key : α} {value : β} {d : List (α × β)}

theorem mem_dictSet {item : α × β} : ∀ {d : List (α × β)}, item ∈ dictSet key value d → item = (key, value) ∨ item ∈ d
  | [], h => by simpa [dictSet] using h
  | p :: d, h => by
    unfold dictSet at h
    split at h
    · exact (mem_cons.mp h).imp_right (mem_cons_of_mem _)
    rcases mem_cons.mp h with rfl | h
    · exact .inr (by simp)
    · exact (mem_dictSet h).imp_right (mem_cons_of_mem _)

theorem map_fst_dictSet : ∀ {d : List (α × β)}, (dictSet key value d).map Prod.fst =
    if key ∈ d.map Prod.fst then d.map Prod.fst else d.map Prod.fst ++ [key]
  | [] => rfl
  | p :: d => by
    unfold dictSet
    by_cases hp : p.1 = key
    · simp [hp]
    have hp' : key ≠ p.1 := fun h => hp h.symm
    rw [if_neg hp, map_cons, map_fst_dictSet, map_cons]
    by_cases hd : key ∈ d.map Prod.fst
    · rw [if_pos hd, if_pos (mem_cons_of_mem _ hd)]
    · rw [if_neg hd, if_neg (by simpa [hp'] using hd)]; rfl

theorem nodup_dictSet (hd : (d.map Prod.fst).Nodup) : ((dictSet key value d).map Prod.fst).Nodup := by
  rw [map_fst_dictSet]
  split
  · exact hd
  · next hk => exact nodup_append.mpr ⟨hd, by simp, fun a ha b hb heq =>
      hk (mem_singleton.mp hb ▸ heq ▸ ha)⟩

theorem dictSet_of_notMem : ∀ {d : List (α × β)}, key ∉ d.map Prod.fst → dictSet key value d = d ++ [(key, value)]
  | [], _ => rfl
  | p :: d, h => by
    have hp : p.1 ≠ key := fun e => h (by simp [e])
    rw [dictSet, if_neg hp, dictSet_of_notMem fun hd => h (mem_cons_of_mem _ hd)]; rfl

end

/-- `d.get(key)`. -/
def dictGet {α β : Type*} [DecidableEq α] (key : α) (d : List (α × β)) : Option β :=
  (d.find? fun item => item.1 = key).map Prod.snd

def dictPop {α β : Type*} [DecidableEq α] (key : α) (d : List (α × β)) : List (α × β) :=
  d.filter fun item => item.1 ≠ key

section
variable {α β : Type*} [DecidableEq α] {key : α} {value : β} {d : List (α × β)}

theorem dictGet_dictSet {key' : α} : ∀ {d : List (α × β)},
    dictGet key' (dictSet key value d) = if key = key' then some value else dictGet key' d
  | [] => by by_cases h : key = key' <;> simp [dictSet, dictGet, h]
  | p :: d => by
    unfold dictSet
    by_cases hp : p.1 = key
    · by_cases h : key = key' <;> simp [dictGet, hp, h]
    by_cases hp' : p.1 = key'
    · have h : key ≠ key' := fun h => hp (hp'.trans h.symm)
      rw [if_neg hp, if_neg h]
      simp [dictGet, hp']
    · simpa [dictGet, hp, hp'] using dictGet_dictSet

theorem map_fst_dictPop (hd : (d.map Prod.fst).Nodup) : (dictPop key d).map Prod.fst = (d.map Prod.fst).erase key := by
  rw [hd.erase_eq_filter, dictPop, filter_map]
  congr 1
  exact filter_congr fun item _ => by by_cases h : item.1 = key <;> simp [h]

theorem nodup_dictPop (hd : (d.map Prod.fst).Nodup) : ((dictPop key d).map Prod.fst).Nodup :=
  hd.sublist (filter_sublist.map _)

theorem mem_dictPop {item : α × β} : item ∈ dictPop key d ↔ item ∈ d ∧ item.1 ≠ key := by
  simp [dictPop]

theorem dictPop_of_notMem (h : key ∉ d.map Prod.fst) : dictPop key d = d :=
  filter_eq_self.mpr fun item hi => by
    simpa using fun e : item.1 = key => h (e ▸ mem_map_of_mem hi)

theorem dictGet_filter {p : α → Bool} :
    dictGet key (d.filter fun item => p item.1) = if p key then dictGet key d else none := by
  induction d with
  | nil => by_cases h : p key <;> simp [dictGet, h]
  | cons item d ih =>
    rw [filter_cons]
    by_cases hp : p item.1
    · rw [if_pos hp]
      by_cases hk : item.1 = key
      · subst hk
        simp [dictGet, hp]
      · simpa [dictGet, hk] using ih
    · rw [if_neg hp, ih]
      by_cases hk : item.1 = key
      · subst hk
        simp [hp]
      · simp [dictGet, hk]

theorem dictGet_dictPop {key' : α} : dictGet key' (dictPop key d) = if key = key' then none else dictGet key' d := by
  rw [dictPop, dictGet_filter (p := fun k => k ≠ key)]
  by_cases h : key = key'
  · simp [h]
  · simp [h, Ne.symm h]

theorem dictGet_foldl_dictPop {keys : List α} : ∀ {d : List (α × β)},
    dictGet key (keys.foldl (fun d key => dictPop key d) d) = if key ∈ keys then none else dictGet key d := by
  induction keys with
  | nil => simp
  | cons key' keys ih =>
    intro d
    rw [foldl_cons, ih, dictGet_dictPop]
    by_cases h : key' = key
    · simp [h]
    · have h' : key ≠ key' := fun e => h e.symm
      by_cases hm : key ∈ keys <;> simp [h, h', hm]

theorem dictGet_isSome : (dictGet key d).isSome ↔ key ∈ d.map Prod.fst := by
  simp [dictGet, find?_isSome]

theorem dictGet_of_mem : ∀ {d : List (α × β)}, (d.map Prod.fst).Nodup → (key, value) ∈ d → dictGet key d = some value
  | item :: d, hn, h => by
    rw [map_cons, nodup_cons] at hn
    rcases mem_cons.mp h with rfl | h
    · simp [dictGet]
    have hne : item.1 ≠ key := fun heq => hn.1 (heq ▸ mem_map_of_mem h)
    have hr := dictGet_of_mem hn.2 h
    simpa [dictGet, hne] using hr

theorem mem_of_dictGet (h : dictGet key d = some value) : (key, value) ∈ d := by
  obtain ⟨item, hf, rfl⟩ := Option.map_eq_some_iff.mp h
  have hk : item.1 = key := by simpa using find?_some hf
  exact hk ▸ mem_of_find?_eq_some hf

theorem dictGet_map_self {f : α → β} {l : List α} :
    dictGet key (l.map fun a => (a, f a)) = if key ∈ l then some (f key) else none := by
  induction l with
  | nil => rfl
  | cons a l ih =>
    by_cases h : a = key
    · simp [dictGet, h]
    · have h' : key ≠ a := fun e => h e.symm
      simpa [dictGet, h, h'] using ih

theorem dictPop_cons {p : α × β} (hd : p.1 ∉ d.map Prod.fst) :
    dictPop key (p :: d) = if p.1 = key then d else p :: dictPop key d := by
  split
  · next h => rw [dictPop, filter_cons_of_neg (by simp [h])]; exact dictPop_of_notMem (h ▸ hd)
  · next h => exact filter_cons_of_pos (by simp [h])

theorem sum_dictPop {value : Int} : ∀ {d : List (α × Int)}, (d.map Prod.fst).Nodup → dictGet key d = some value →
    ((dictPop key d).map Prod.snd).sum + value = (d.map Prod.snd).sum
  | [], _, h => by cases h
  | p :: d, hd, h => by
    rw [map_cons, nodup_cons] at hd
    rw [dictPop_cons hd.1]
    by_cases hp : p.1 = key
    · have hv : p.2 = value := by simpa [dictGet, hp] using h
      rw [if_pos hp, map_cons, sum_cons, hv]; omega
    · have hg : dictGet key d = some value := by simpa [dictGet, hp] using h
      rw [if_neg hp, map_cons, map_cons, sum_cons, sum_cons, ← sum_dictPop hd.2 hg]; omega

end

/-! ## A pass over the keys -/

section
variable {α β : Type*} [DecidableEq α] {key : α} {value : β} {d : List (α × β)}

theorem dictSet_append_cons {old : β} : ∀ {d rest : List (α × β)}, key ∉ d.map Prod.fst →
    dictSet key value (d ++ (key, old) :: rest) = d ++ (key, value) :: rest
  | [], _, _ => by simp [dictSet]
  | p :: d, rest, h => by
    have hp : p.1 ≠ key := fun e => h (by simp [e])
    rw [cons_append, dictSet, if_neg hp, dictSet_append_cons fun hd => h (mem_cons_of_mem _ hd)]; rfl

theorem dictGet_append_cons {rest : List (α × β)} (h : key ∉ d.map Prod.fst) :
    dictGet key (d ++ (key, value) :: rest) = some value := by
  have hd : d.find? (fun item => decide (item.1 = key)) = none := find?_eq_none.mpr fun item hi hk =>
    h (of_decide_eq_true hk ▸ mem_map_of_mem hi)
  simp [dictGet, find?_append, hd]

theorem dictGet_eq_none (h : key ∉ d.map Prod.fst) : dictGet key d = none := by
  rw [dictGet, Option.map_eq_none_iff, find?_eq_none]
  exact fun item hi hk => h (of_decide_eq_true hk ▸ mem_map_of_mem hi)

theorem foldl_dictSet_map (f : Option β → β) (old : Option β) : ∀ (suf pre : List α), (pre ++ suf).Nodup →
    suf.foldl (fun d key => dictSet key (f (dictGet key d)) d)
        (pre.map (fun key => (key, f old)) ++ old.elim [] fun value => suf.map fun key => (key, value)) =
      (pre ++ suf).map fun key => (key, f old)
  | [], pre, _ => by cases old <;> simp
  | key :: suf, pre, h => by
    have hk : key ∉ (pre.map fun key => (key, f old)).map Prod.fst := by
      simpa using fun hm => (nodup_append.mp h).2.2 key hm key (by simp) rfl
    have hr := foldl_dictSet_map f old suf (pre ++ [key]) (by simpa using h)
    cases old with
    | none =>
      rw [foldl_cons, Option.elim_none, append_nil, dictGet_eq_none hk, dictSet_of_notMem hk]
      simpa using hr
    | some value =>
      rw [foldl_cons, Option.elim_some, map_cons, dictGet_append_cons hk, dictSet_append_cons hk]
      simpa using hr

theorem foldl_dictSet_items : ∀ (suf pre : List (α × β)), ((pre ++ suf).map Prod.fst).Nodup →
    suf.foldl (fun d item => dictSet item.1 item.2 d) pre = pre ++ suf
  | [], pre, _ => by simp
  | item :: suf, pre, h => by
    have hk : item.1 ∉ pre.map Prod.fst := by
      rw [map_append] at h
      exact fun hm => (nodup_append.mp h).2.2 item.1 hm item.1 (by simp) rfl
    have hr := foldl_dictSet_items suf (pre ++ [item]) (by simpa using h)
    rw [foldl_cons, dictSet_of_notMem hk]
    simpa using hr

end

/-- `d.get(key, [])`. -/
def listAt {α β : Type*} [DecidableEq α] (key : α) (d : List (α × List β)) : List β :=
  (dictGet key d).getD []

/-- `d.setdefault(key, []).append(x)`. -/
def dictAppend {α β : Type*} [DecidableEq α] (key : α) (x : β) (d : List (α × List β)) : List (α × List β) :=
  dictSet key (listAt key d ++ [x]) d

theorem listAt_dictAppend {α β : Type*} [DecidableEq α] {key key' : α} {x : β} {d : List (α × List β)} :
    listAt key' (dictAppend key x d) = listAt key' d ++ if key = key' then [x] else [] := by
  rw [listAt, dictAppend, dictGet_dictSet]
  by_cases h : key = key'
  · subst h; simp
  · simp [h, listAt]

section
variable {α β γ : Type*} [DecidableEq α] {f : γ → α} {g : γ → β}

theorem group_spec : ∀ (l : List γ) (d : List (α × List β)), (d.map Prod.fst).Nodup →
    let out := l.foldl (fun d x => dictAppend (f x) (g x) d) d
    (out.map Prod.fst).Nodup ∧ ∀ key, (key ∈ out.map Prod.fst ↔ key ∈ d.map Prod.fst ∨ ∃ x ∈ l, f x = key) ∧
      listAt key out = listAt key d ++ (l.filter (f · = key)).map g
  | [], d, hd => ⟨hd, by simp⟩
  | x :: l, d, hd => by
    obtain ⟨hn, h⟩ := group_spec l (dictAppend (f x) (g x) d) (nodup_dictSet hd)
    refine ⟨hn, fun key => ⟨(h key).1.trans ?_, (h key).2.trans ?_⟩⟩
    · rw [dictAppend, map_fst_dictSet]
      grind
    · rw [listAt_dictAppend, filter_cons]
      by_cases e : f x = key <;> simp [e]

theorem group_groups (l : List γ) :
    let out := l.foldl (fun d x => dictAppend (f x) (g x) d) []
    (out.map Prod.fst).Nodup ∧ (∀ x ∈ l, ∃ p ∈ out, p.1 = f x ∧ g x ∈ p.2) ∧
      ∀ p ∈ out, p.2 = (l.filter (f · = p.1)).map g ∧ ∃ x ∈ l, f x = p.1 := by
  intro out
  obtain ⟨hn, h⟩ : (out.map Prod.fst).Nodup ∧ _ := group_spec l [] .nil
  have hof : ∀ p ∈ out, p.2 = (l.filter (f · = p.1)).map g := fun p hp => by
    have h := (h p.1).2
    rw [listAt, dictGet_of_mem hn hp] at h
    simpa [listAt, dictGet] using h
  refine ⟨hn, fun x hx => ?_, fun p hp => ⟨hof p hp, by simpa using (h p.1).1.mp (mem_map_of_mem hp)⟩⟩
  obtain ⟨p, hp, he⟩ := mem_map.mp ((h (f x)).1.mpr (.inr ⟨x, hx, rfl⟩))
  exact ⟨p, hp, he, hof p hp ▸ mem_map_of_mem (by simp [hx, he])⟩

end

section
variable {α β : Type*} [DecidableEq α] {key : α} {q : β → Bool}

theorem listAt_cons {item : α × List β} {d : List (α × List β)} :
    listAt key (item :: d) = if item.1 = key then item.2 else listAt key d := by
  by_cases h : item.1 = key <;> simp [listAt, dictGet, h]

theorem mem_flatMap_of_mem_listAt {x : β} {d : List (α × List β)} (h : x ∈ listAt key d) : x ∈ d.flatMap Prod.snd := by
  rw [listAt] at h
  cases hg : dictGet key d with
  | none => rw [hg] at h; cases h
  | some l =>
    rw [hg] at h
    exact mem_flatMap.mpr ⟨(key, l), mem_of_dictGet hg, h⟩

theorem countP_dictSet {xs : List β} : ∀ {d : List (α × List β)},
    ((dictSet key xs d).flatMap Prod.snd).countP q + (listAt key d).countP q =
      (d.flatMap Prod.snd).countP q + xs.countP q
  | [] => by simp [dictSet, listAt, dictGet]
  | item :: d => by
    have ih := @countP_dictSet xs d
    unfold dictSet
    rw [listAt_cons]
    by_cases h : item.1 = key
    · simp only [h, if_true, flatMap_cons, countP_append]; omega
    · simp only [h, if_false, flatMap_cons, countP_append]; omega

theorem countP_dictPop : ∀ {d : List (α × List β)}, (d.map Prod.fst).Nodup →
    ((dictPop key d).flatMap Prod.snd).countP q + (listAt key d).countP q = (d.flatMap Prod.snd).countP q
  | [], _ => by simp [dictPop, listAt, dictGet]
  | item :: d, hd => by
    rw [map_cons, nodup_cons] at hd
    rw [listAt_cons, dictPop_cons hd.1]
    by_cases h : item.1 = key
    · rw [if_pos h, if_pos h, flatMap_cons, countP_append]; omega
    · have ih := countP_dictPop hd.2
      rw [if_neg h, if_neg h, flatMap_cons, flatMap_cons, countP_append, countP_append]; omega

end

def pyRound (x : ℚ) : Int :=
  let below := ⌊x⌋
  if x - below < 1 / 2 then below
  else if 1 / 2 < x - below then below + 1
  else if below % 2 = 0 then below else below + 1

theorem pyRound_mem {x : ℚ} {a b : Int} (ha : (a : ℚ) ≤ x) (hb : x ≤ b) : a ≤ pyRound x ∧ pyRound x ≤ b := by
  have hf : a ≤ ⌊x⌋ := Int.le_floor.mpr ha
  have hle : ⌊x⌋ ≤ b := Int.cast_le.mp ((Int.floor_le x).trans hb)
  have hup : ¬ x - ⌊x⌋ < 1 / 2 → ⌊x⌋ + 1 ≤ b := by
    intro h
    have hlt : (⌊x⌋ : ℚ) < b := by linarith
    exact Int.cast_lt.mp hlt
  unfold pyRound
  simp only
  split
  · exact ⟨hf, hle⟩
  rename_i h
  have := hup h
  split
  · omega
  · split <;> omega

section
variable {α : Type*}

theorem lastN_of_pos {k : Nat} (hk : 0 < k) (l : List α) : lastN k l = l.drop (l.length - k) := by
  simp [lastN, Nat.pos_iff_ne_zero.mp hk]

theorem delLast_of_pos {k : Nat} (hk : 0 < k) (l : List α) : delLast k l = l.take (l.length - k) := by
  simp [delLast, Nat.pos_iff_ne_zero.mp hk]

theorem length_lastN {k : Nat} (hk : 0 < k) {l : List α} (hl : k ≤ l.length) : (lastN k l).length = k := by
  rw [lastN_of_pos hk, length_drop]; omega

theorem delLast_append {k : Nat} (hk : 0 < k) (l s : List α) (hs : s.length = k) : delLast k (l ++ s) = l := by
  rw [delLast_of_pos hk, length_append, hs, Nat.add_sub_cancel, take_left]

end

end Python
