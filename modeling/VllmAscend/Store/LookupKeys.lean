import VllmAscend.Store.ConfigData

/-!
# The keys of a chunk, from block hashes and from their hex strings

A worker derives the keys of a request's chunks from the raw block hashes when
it stores, and from the hex strings that `LookupKeyClient` sends when it looks
them up. SHA-256 is a parameter.
-/

namespace VllmAscend.Store.Wire

open List

def hex (bytes : List UInt8) : List Char :=
  bytes.flatMap fun b => [Nat.digitChar (b.toNat / 16), Nat.digitChar (b.toNat % 16)]

def hexValue (c : Char) : Option Nat :=
  if '0' ≤ c ∧ c ≤ '9' then some (c.toNat - 48)
  else if 'a' ≤ c ∧ c ≤ 'f' then some (c.toNat - 87)
  else if 'A' ≤ c ∧ c ≤ 'F' then some (c.toNat - 55) else none

/-- `bytes.fromhex` of a string without blanks; `none` is its `ValueError`. -/
def fromHex : List Char → Option (List UInt8)
  | [] => some []
  | [_] => none
  | a :: b :: rest => do return UInt8.ofNat (16 * (← hexValue a) + (← hexValue b)) :: (← fromHex rest)

def encodeUtf8 (s : List Char) : List UInt8 := s.flatMap String.utf8EncodeChar

/-- A `BlockHash` or the string sent for it. -/
inductive Hash where
  | bytes (b : List UInt8)
  | str (s : List Char)

def blockHashToBytes : Hash → List UInt8
  | .bytes b => b
  | .str s => if s.length = 64 then (fromHex s).getD (encodeUtf8 s) else encodeUtf8 s

/-- `n.to_bytes(4, "big")`. -/
def toBytes (n : Nat) : List UInt8 := [24, 16, 8, 0].map fun shift => UInt8.ofNat (n >>> shift)

/-- What `_rehash_block_hash_group` feeds to SHA-256. -/
def groupMessage (group : List Hash) : List UInt8 :=
  encodeUtf8 "vllm-ascend-grouped-block-hash-v1\x00".toList ++ toBytes group.length ++
    group.flatMap fun h => toBytes (blockHashToBytes h).length ++ blockHashToBytes h

section
variable (digest : List UInt8 → List UInt8)

def getBlockHashes (hashes : List Hash) (groupBlockSize hashBlockSize : Nat) : List Hash :=
  if groupBlockSize = hashBlockSize then hashes
  else
    let scaleFactor := groupBlockSize / hashBlockSize
    (range (hashes.length / scaleFactor)).map fun i =>
      .bytes (digest (groupMessage ((hashes.drop (i * scaleFactor)).take scaleFactor)))

/-- The hash strings that `process_tokens` puts into the keys of the chunks, in order. -/
def chunkHashes (db : TokenDatabase) (kvCacheGroupId : Nat) (hashes : List Hash) : List (List Char) :=
  (getBlockHashes digest hashes (db.chunkSize kvCacheGroupId) db.hashBlockSize).map fun
    | .bytes b => hex b
    | .str s => s

end

def hashStrs (hashes : List (List UInt8)) : List Hash := hashes.map fun h => .str (hex h)

/-! ## Bytes and strings -/

theorem digitChar_spec : ∀ n < 16, hexValue (Nat.digitChar n) = some n ∧
    (String.utf8EncodeChar (Nat.digitChar n)).length = 1 := by decide

theorem hex_spec : ∀ bytes, fromHex (hex bytes) = some bytes ∧ (hex bytes).length = 2 * bytes.length ∧
    (encodeUtf8 (hex bytes)).length = 2 * bytes.length
  | [] => ⟨rfl, rfl, rfl⟩
  | b :: bytes => by
    obtain ⟨h, hl, he⟩ := hex_spec bytes
    have hb := b.toNat_lt
    obtain ⟨h1, e1⟩ := digitChar_spec (b.toNat / 16) (by omega)
    obtain ⟨h2, e2⟩ := digitChar_spec (b.toNat % 16) (by omega)
    have hbyte : UInt8.ofNat (16 * (b.toNat / 16) + b.toNat % 16) = b := by rw [Nat.div_add_mod, UInt8.ofNat_toNat]
    rw [show hex (b :: bytes) = Nat.digitChar (b.toNat / 16) :: Nat.digitChar (b.toNat % 16) :: hex bytes from rfl]
    simp only [encodeUtf8, flatMap_cons, length_append, e1, e2, length_cons] at he ⊢
    refine ⟨?_, by omega, by omega⟩
    rw [fromHex, h1, h2, h]
    exact congrArg (fun b => some (b :: bytes)) hbyte

theorem blockHashToBytes_str : blockHashToBytes (.str (hex b)) = if b.length = 32 then b else encodeUtf8 (hex b) := by
  obtain ⟨h, hl, -⟩ := hex_spec b
  simp only [blockHashToBytes, h, hl, Option.getD_some]
  exact if_congr (by omega) rfl rfl

section
variable {hashes : List (List UInt8)}

theorem length_groupMessage (h : ∀ b ∈ hashes, (blockHashToBytes (f b)).length = c) :
    (groupMessage (hashes.map f)).length = (groupMessage []).length + hashes.length * (4 + c) := by
  have hlen : ∀ b ∈ hashes, (toBytes (blockHashToBytes (f b)).length).length + (blockHashToBytes (f b)).length = 4 + c :=
    fun b hb => by rw [h b hb]; rfl
  simp only [groupMessage, flatMap_map, length_append, length_flatMap, map_congr_left hlen, map_const', sum_replicate_nat]
  rfl

/-! ## The two lists of keys -/

variable {db : TokenDatabase} {digest : List UInt8 → List UInt8} {n k kvCacheGroupId : Nat}

/-- The strings give the keys of the hashes exactly where they are decoded again or nothing is rehashed. -/
theorem lookup_keys_iff (hk : db.chunkSize kvCacheGroupId = k * db.hashBlockSize) (hpos : 0 < k)
    (hsize : 0 < db.hashBlockSize) (hn : ∀ h ∈ hashes, h.length = n)
    (hdigest : ∀ i, let group := (hashes.drop (i * k)).take k
      digest (groupMessage (group.map .bytes)) = digest (groupMessage (hashStrs group)) →
        groupMessage (group.map .bytes) = groupMessage (hashStrs group)) :
    chunkHashes digest db kvCacheGroupId (hashes.map .bytes) = chunkHashes digest db kvCacheGroupId (hashStrs hashes) ↔
      n = 32 ∨ n = 0 ∨ k = 1 ∨ hashes.length < k := by
  by_cases h1 : k = 1
  · refine iff_of_true ?_ (.inr (.inr (.inl h1)))
    simp only [chunkHashes, getBlockHashes, hk, h1, Nat.one_mul, if_true, hashStrs, map_map]
    rfl
  have hne : k * db.hashBlockSize ≠ db.hashBlockSize := fun h =>
    h1 (Nat.eq_of_mul_eq_mul_right hsize (by rw [h, Nat.one_mul]))
  simp only [chunkHashes, getBlockHashes, hk, hne, if_false, Nat.mul_div_cancel _ hsize, hashStrs, length_map, map_map,
    ← map_take, ← map_drop]
  constructor
  · intro h
    by_contra hno
    simp only [not_or, Nat.not_lt] at hno
    obtain ⟨h32, h0, -, hlen⟩ := hno
    have hkey := map_inj_left.mp h 0 (mem_range.mpr (Nat.div_pos hlen hpos))
    have hdig := hdigest 0 (Option.some.inj (by rw [← (hex_spec _).1, ← (hex_spec _).1]; exact congrArg _ hkey))
    have hin : ∀ b ∈ (hashes.drop (0 * k)).take k, b.length = n := fun b hb => hn b (mem_of_mem_drop (mem_of_mem_take hb))
    have hl := congrArg length hdig
    rw [hashStrs, length_groupMessage (c := n) hin, length_groupMessage (c := 2 * n) fun b hb => by
      rw [blockHashToBytes_str, if_neg (hin b hb ▸ h32), (hex_spec b).2.2, hin b hb]] at hl
    have hgroup : ((hashes.drop (0 * k)).take k).length = k := by simp [hlen]
    rw [hgroup, Nat.add_left_cancel_iff, Nat.mul_right_inj (Nat.ne_of_gt hpos)] at hl
    omega
  · intro h
    refine map_congr_left fun i hi => ?_
    have hlt : k ≤ hashes.length := by
      by_contra hlt
      rw [Nat.div_eq_of_lt (Nat.lt_of_not_le hlt)] at hi
      cases hi
    have hb : ∀ b ∈ hashes, blockHashToBytes (.str (hex b)) = b := by
      intro b hb
      rw [blockHashToBytes_str]
      rcases h with rfl | rfl | h | h
      · exact if_pos (hn b hb)
      · rw [length_eq_zero_iff.mp (hn b hb)]; rfl
      · exact absurd h h1
      · omega
    have hgroup : groupMessage (((hashes.drop (i * k)).take k).map .bytes) =
        groupMessage (((hashes.drop (i * k)).take k).map fun b => .str (hex b)) := by
      simp only [groupMessage, length_map, flatMap_map]
      congr 1
      exact flatMap_congr fun b hm => by rw [hb b (mem_of_mem_drop (mem_of_mem_take hm))]; rfl
    simp only [Function.comp_apply, hgroup]

end

/-- SHA-256 of the groups below. -/
def sha256 (message : List UInt8) : List UInt8 :=
  let digest := if message = groupMessage [.bytes (replicate 32 7), .bytes (replicate 32 9)] then
      "05070e28449ded9fc9906476a43f017e756f79f0892ea87fdddf5f2551581805"
    else if message = groupMessage [.bytes (replicate 8 7), .bytes (replicate 8 9)] then
      "34f6f42d87398471dac36f99ce37df0827722d0d311c810c811ad5473c778f30"
    else "b765933a95b9d98da7a42e26e7b15eac1f8b67c79185c625ffd1999b88b674f8"
  (fromHex digest.toList).getD []

theorem lookup_keys_sha : chunkHashes sha256 ⟨[4], [1], 2⟩ 0 ([replicate 32 7, replicate 32 9].map .bytes) =
    chunkHashes sha256 ⟨[4], [1], 2⟩ 0 (hashStrs [replicate 32 7, replicate 32 9]) := by
  refine (lookup_keys_iff (n := 32) (k := 2) rfl (by decide) (by decide) (by simp) fun i _ => ?_).mpr (.inl rfl)
  cases i with
  | zero => decide +kernel
  | succ i => rw [drop_eq_nil_of_le (by simp)]; rfl

/-- Hashes of eight bytes are rehashed as their strings' characters when they come as strings. -/
theorem lookup_keys_short : chunkHashes sha256 ⟨[4], [1], 2⟩ 0 ([replicate 8 7, replicate 8 9].map .bytes) ≠
    chunkHashes sha256 ⟨[4], [1], 2⟩ 0 (hashStrs [replicate 8 7, replicate 8 9]) := by decide +kernel

end VllmAscend.Store.Wire
