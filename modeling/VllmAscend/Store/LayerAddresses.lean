import VllmAscend.Store.ConfigData

/-!
# Addresses of a chunk by block and by layer

`register_kv_caches` flattens the cache tensors of the layers into one list, by
layer and then by tensor. `prepare_value` reads the list once for a chunk;
`prepare_value_layer` reads it once per layer.
-/

namespace VllmAscend.Store

open Python List

/-- The entry of a cache tensor in `group_kv_caches_base_addr`, `group_block_len` and `group_block_stride`. -/
structure CacheTensor where
  baseAddr : Nat
  blockLen : Nat
  blockStride : Nat

def inferCacheGroupMetadata (layers : List (List CacheTensor)) : List CacheTensor := layers.flatten

def listItem (l : List α) (i : Nat) : Except PyError α :=
  match l[i]? with
  | some a => .ok a
  | none => .error (.indexError "list index out of range")

section
variable (db : TokenDatabase)
-- `int(block_len / group_block_size * (end - start))` of a block length, which both functions compute in floats
variable (size : Nat → Nat)
variable (buffers : List CacheTensor) (start : Nat) (blockIds : List Nat)

def CacheTensor.part (baseAddr blockId : Nat) (t : CacheTensor) : Nat × Nat :=
  (baseAddr + blockId * t.blockStride, size t.blockLen)

def prepareValue : Except PyError (List (Nat × Nat) × Nat) := do
  let blockId ← listItem blockIds (start / db.getBlockSize 0)
  let parts ← buffers.zipIdx.mapM fun item =>
    return (← listItem buffers (item.2 % buffers.length)).part size item.1.baseAddr blockId
  return (parts, blockId)

def prepareValueLayer (layerId : Nat) : Except PyError (List (Nat × Nat) × Nat) := do
  let blockId ← listItem blockIds (start / db.getBlockSize 0)
  let parts ← (range buffers.length).mapM fun i =>
    return (← listItem buffers i).part size (← listItem buffers (layerId * buffers.length)).baseAddr blockId
  return (parts, blockId)

def prepareLayers (numLayers : Nat) : Except PyError (List (Nat × Nat)) := do
  let values ← (range numLayers).mapM (prepareValueLayer db size buffers start blockIds)
  return values.flatMap Prod.fst

end

section
variable {db : TokenDatabase} {size : Nat → Nat} {start blockId : Nat} {blockIds : List Nat}
variable {buffers : List CacheTensor}

theorem listItem_ok (h : l[i]? = some a) : listItem l i = .ok a := by rw [listItem, h]

theorem mapM_zipIdx {f : CacheTensor × Nat → Except PyError (Nat × Nat)}
    (h : ∀ item : CacheTensor × Nat, buffers[item.2]? = some item.1 → f item = .ok (g item.1)) :
    buffers.zipIdx.mapM f = .ok (buffers.map g) := by
  conv_rhs => rw [← zipIdx_map_fst 0 buffers, map_map]
  exact mapM_ok fun item hi => h item (mem_zipIdx_iff_getElem?.mp hi)

/-- From the second layer on the address is past the end of the list. -/
theorem prepareValueLayer_pos (hne : buffers ≠ []) (hl : 0 < layerId) (v : List (Nat × Nat) × Nat) :
    prepareValueLayer db size buffers start blockIds layerId ≠ .ok v := by
  intro h
  obtain ⟨blockId, -, h⟩ := bind_ok.mp h
  obtain ⟨parts, hp, -⟩ := bind_ok.mp h
  obtain ⟨p, h0⟩ := exists_of_mapM hp (mem_range.mpr (length_pos_of_ne_nil hne))
  obtain ⟨t0, -, h0⟩ := bind_ok.mp h0
  obtain ⟨t, ht, -⟩ := bind_ok.mp h0
  rw [listItem, getElem?_eq_none (Nat.le_mul_of_pos_left _ hl)] at ht
  cases ht

variable (hb : blockIds[start / db.getBlockSize 0]? = some blockId)
include hb

theorem prepareValue_eq : prepareValue db size buffers start blockIds =
    .ok (buffers.map fun t => t.part size t.baseAddr blockId, blockId) := by
  rw [prepareValue, listItem_ok hb, ok_bind, mapM_zipIdx]
  · rfl
  · intro item hi
    rw [Nat.mod_eq_of_lt (lt_of_getElem? hi), listItem_ok hi]
    rfl

theorem prepareValueLayer_zero {t : CacheTensor} (ht : buffers[0]? = some t) :
    prepareValueLayer db size buffers start blockIds 0 =
      .ok (buffers.map (CacheTensor.part size t.baseAddr blockId), blockId) := by
  have hr : range buffers.length = buffers.zipIdx.map Prod.snd := by rw [zipIdx_map_snd, range_eq_range']
  rw [prepareValueLayer, listItem_ok hb, ok_bind, hr, mapM_map, mapM_zipIdx]
  · rfl
  · intro item hi
    rw [Function.comp_apply, listItem_ok hi, Nat.zero_mul, listItem_ok ht]
    rfl

theorem layers_exact_iff (layers : List (List CacheTensor)) :
    (∃ parts, prepareLayers db size (inferCacheGroupMetadata layers) start blockIds layers.length = .ok parts ∧
      prepareValue db size (inferCacheGroupMetadata layers) start blockIds = .ok (parts, blockId)) ↔
      layers.flatten = [] ∨ ∃ caches addr, layers = [caches] ∧ ∀ t ∈ caches, t.baseAddr = addr := by
  rw [prepareValue_eq hb, inferCacheGroupMetadata]
  by_cases hne : layers.flatten = []
  · have hlayer : ∀ i ∈ range layers.length, prepareValueLayer db size [] start blockIds i = .ok ([], blockId) := by
      simp [prepareValueLayer, listItem_ok hb]
    refine iff_of_true ⟨[], ?_, by rw [hne]; rfl⟩ (.inl hne)
    simp [prepareLayers, hne, mapM_ok hlayer]
  match layers with
  | [] => exact absurd rfl hne
  | [caches] =>
    obtain ⟨t, rest, rfl⟩ := exists_cons_of_ne_nil (show caches ≠ [] by simpa using hne)
    have h0 : prepareValueLayer db size (t :: rest) start blockIds 0 = _ := prepareValueLayer_zero hb rfl
    simp [prepareLayers, h0, CacheTensor.part]
  | _ :: _ :: _ =>
    refine iff_of_false ?_ (by simp_all)
    rintro ⟨parts, h, -⟩
    obtain ⟨values, hv, -⟩ := bind_ok.mp h
    obtain ⟨v, h1⟩ := exists_of_mapM hv (mem_range.mpr (show 1 < _ by simp))
    exact prepareValueLayer_pos hne Nat.one_pos v h1

end

/-- Two layers of a key and a value tensor each: the second one raises. -/
theorem keyValueLayers_raise :
    raisedBy (prepareLayers ⟨[128], [1], 128⟩ id (inferCacheGroupMetadata
      [[⟨1000, 64, 64⟩, ⟨2000, 64, 64⟩], [⟨3000, 64, 64⟩, ⟨4000, 64, 64⟩]]) 0 [5] 2) =
      some (.indexError "list index out of range") := by decide

theorem layers_exact_single : ∃ parts,
    prepareLayers ⟨[128], [1], 128⟩ id (inferCacheGroupMetadata [[⟨1000, 64, 64⟩]]) 0 [5] 1 = .ok parts ∧
      prepareValue ⟨[128], [1], 128⟩ id (inferCacheGroupMetadata [[⟨1000, 64, 64⟩]]) 0 [5] = .ok (parts, 5) :=
  (layers_exact_iff rfl _).mpr (.inr ⟨_, 1000, rfl, by simp⟩)

end VllmAscend.Store
