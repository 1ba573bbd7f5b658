import Mathlib.Data.List.MinMax
import Mathlib.Data.Prod.Lex
import VllmAscend.Lib.Python

/-!
# The native prefix cache

`native_cache.py`: physical KV pages with reference counts, an index from full
prompt prefixes to the page that holds their last block, and the page tables of
the batch being served.
-/

namespace VllmAscend

open Python

/-- `_CacheBlock`; a block's id is its index. -/
structure CacheBlock where
  prefixKey : Option (List Int) := none
  refCount : Int := 0
  lastUsed : Nat := 0

/-- A page table: the physical page of each logical block, `none` for the source's `-1`. -/
abbrev PageTable := List (Option Nat)

structure NativePrefixCache where
  numBlocks : Nat
  blocksPerSequence : Nat
  blockSize : Nat
  blocks : Nat → CacheBlock
  prefixToBlock : List Int → Option Nat
  clock : Nat
  activeTables : Option (List PageTable)

structure NativeCacheAllocation where
  blockTables : List PageTable
  numCachedTokens : List Nat

namespace NativePrefixCache

def init (numBlocks blocksPerSequence blockSize : Nat) : Except PyError NativePrefixCache :=
  if numBlocks = 0 ∨ blocksPerSequence = 0 ∨ blockSize = 0 then
    .error (.valueError "Native prefix-cache dimensions must be positive.")
  else
    .ok { numBlocks, blocksPerSequence, blockSize, blocks := fun _ => {}, prefixToBlock := fun _ => none,
          clock := 0, activeTables := none }

def freeBlocks (c : NativePrefixCache) : List Nat :=
  (List.range c.numBlocks).filter fun b => (c.blocks b).refCount = 0

def reuseKey (c : NativePrefixCache) (b : Nat) : Bool ×ₗ Nat ×ₗ Nat :=
  toLex ((c.blocks b).prefixKey.isSome, toLex ((c.blocks b).lastUsed, b))

def shareBlock (c : NativePrefixCache) (b : Nat) : NativePrefixCache :=
  let block := { c.blocks b with refCount := (c.blocks b).refCount + 1, lastUsed := c.clock }
  { c with blocks := Function.update c.blocks b block }

def evictBlock (c : NativePrefixCache) (b : Nat) : List Int → Option Nat :=
  match (c.blocks b).prefixKey with
  | some old => Function.update c.prefixToBlock old none
  | none => c.prefixToBlock

/-- The body of a miss: the free block `b` is evicted from the index and taken under `key`. -/
def takeBlock (c : NativePrefixCache) (key : Option (List Int)) (b : Nat) : NativePrefixCache :=
  { c with
    blocks := Function.update c.blocks b { prefixKey := key, refCount := 1, lastUsed := c.clock }
    prefixToBlock := match key with
      | some k => Function.update (c.evictBlock b) k (some b)
      | none => c.evictBlock b }

def acquireBlock (c : NativePrefixCache) (key : Option (List Int)) :
    Except PyError (Nat × Bool) × NativePrefixCache :=
  let c := { c with clock := c.clock + 1 }
  match key.bind c.prefixToBlock with
  | some b => (.ok (b, true), c.shareBlock b)
  | none =>
    match c.freeBlocks.argmin c.reuseKey with
    | none => (.error (.runtimeError "The native PEARL KV cache has no free physical blocks."), c)
    | some b => (.ok (b, false), c.takeBlock key b)

/-- The prefix through block `lb`, unless the block reaches the last prompt token. -/
def blockKey (blockSize : Nat) (enablePrefixCaching : Bool) (prompt : List Int) (lb : Nat) :
    Option (List Int) :=
  let numFullBlocks := (prompt.length - 1) / blockSize
  if enablePrefixCaching ∧ lb < numFullBlocks then some (prompt.take ((lb + 1) * blockSize)) else none

def numPromptBlocks (blockSize : Nat) (prompt : List Int) : Nat :=
  (prompt.length + blockSize - 1) / blockSize

/-- The inner loop of `allocate`: the pages of one prompt. `acquired` collects
the page ids for the rollback. -/
def fillTable (enablePrefixCaching : Bool) (prompt : List Int) :
    List Nat → NativePrefixCache → List Nat → PageTable → Nat →
      Except PyError (PageTable × Nat) × NativePrefixCache × List Nat
  | [], c, acquired, table, cached => (.ok (table, cached), c, acquired)
  | lb :: rest, c, acquired, table, cached =>
    match c.acquireBlock (blockKey c.blockSize enablePrefixCaching prompt lb) with
    | (.error e, c') => (.error e, c', acquired)
    | (.ok (b, hit), c') =>
      fillTable enablePrefixCaching prompt rest c' (acquired ++ [b]) (table.set lb (some b))
        (if hit then cached + c.blockSize else cached)

def fillTables (enablePrefixCaching : Bool) :
    List (List Int) → NativePrefixCache → List Nat →
      Except PyError (List PageTable × List Nat) × NativePrefixCache × List Nat
  | [], c, acquired => (.ok ([], []), c, acquired)
  | prompt :: rest, c, acquired =>
    if prompt.length > c.blocksPerSequence * c.blockSize then
      (.error (.valueError "A PEARL prompt exceeds its KV cache page table."), c, acquired)
    else
      match fillTable enablePrefixCaching prompt (List.range (numPromptBlocks c.blockSize prompt)) c acquired
          (List.replicate c.blocksPerSequence none) 0 with
      | (.error e, s) => (.error e, s)
      | (.ok (table, cached), c', acquired') =>
        match fillTables enablePrefixCaching rest c' acquired' with
        | (.error e, s) => (.error e, s)
        | (.ok (tables, counts), s) => (.ok (table :: tables, cached :: counts), s)

def dropRef (c : NativePrefixCache) (b : Nat) : NativePrefixCache :=
  { c with blocks := Function.update c.blocks b { c.blocks b with refCount := (c.blocks b).refCount - 1 } }

def allocate (c : NativePrefixCache) (prompts : List (List Int)) (enablePrefixCaching : Bool) :
    Except PyError NativeCacheAllocation × NativePrefixCache :=
  match c.activeTables with
  | some _ =>
    (.error (.runtimeError "Release the active PEARL cache allocation before allocating another batch."), c)
  | none =>
    match fillTables enablePrefixCaching prompts c [] with
    | (.error e, c', acquired) => (.error e, acquired.foldl dropRef c')
    | (.ok (tables, counts), c', _) => (.ok ⟨tables, counts⟩, { c' with activeTables := some tables })

def pyIndex (n : Nat) (i : Int) : Option Nat :=
  if 0 ≤ i then (if i.toNat < n then some i.toNat else none)
  else if 0 ≤ i + n then some (i + n).toNat else none

def ensurePage (c : NativePrefixCache) (tables : List PageTable) (sequenceId position : Int) :
    Except PyError (Option (Nat × Int × Nat)) × NativePrefixCache :=
  if sequenceId < 0 ∨ (tables.length : Int) ≤ sequenceId then
    (.error (.valueError "PEARL cache sequence ID is outside the active batch."), c)
  else
    let logicalBlock := position / (c.blockSize : Int)
    if (c.blocksPerSequence : Int) ≤ logicalBlock then
      (.error (.valueError "A PEARL sequence exceeded its configured max_model_len."), c)
    else
      let s := sequenceId.toNat
      let table := tables.getD s []
      match pyIndex table.length logicalBlock with
      | none => (.error (.indexError "list index out of range"), c)
      | some lb =>
        match table.getD lb none with
        | some _ => (.ok none, c)
        | none =>
          match c.acquireBlock none with
          | (.error e, c') => (.error e, c')
          | (.ok (b, _), c') =>
            (.ok (some (s, logicalBlock, b)), { c' with activeTables := some (tables.set s (table.set lb (some b))) })

def ensurePages : List (Int × Int) → NativePrefixCache →
    Except PyError (List (Nat × Int × Nat)) × NativePrefixCache
  | [], c => (.ok [], c)
  | (sequenceId, position) :: rest, c =>
    match ensurePage c (c.activeTables.getD []) sequenceId position with
    | (.error e, c') => (.error e, c')
    | (.ok u, c') =>
      match ensurePages rest c' with
      | (.error e, c'') => (.error e, c'')
      | (.ok us, c'') => (.ok (u.toList ++ us), c'')

def ensureCapacity (c : NativePrefixCache) (sequenceIds positions : List Int) :
    Except PyError (List (Nat × Int × Nat)) × NativePrefixCache :=
  match c.activeTables with
  | none => (.error (.runtimeError "Allocate a PEARL batch before extending its KV cache."), c)
  | some _ =>
    if sequenceIds.length ≠ positions.length then
      (.error (.valueError "Every PEARL cache position needs a sequence ID."), c)
    else ensurePages (sequenceIds.zip positions) c

def releasePages : List (Option Nat) → NativePrefixCache → Except PyError Unit × NativePrefixCache
  | [], c => (.ok (), c)
  | none :: rest, c => releasePages rest c
  | some b :: rest, c =>
    let c := c.dropRef b
    if (c.blocks b).refCount < 0 then
      (.error (.runtimeError "PEARL KV cache block reference count became negative."), c)
    else releasePages rest c

def release (c : NativePrefixCache) : Except PyError Unit × NativePrefixCache :=
  match c.activeTables with
  | none => (.ok (), c)
  | some tables =>
    match releasePages tables.flatten c with
    | (.error e, c') => (.error e, c')
    | (.ok (), c') => (.ok (), { c' with activeTables := none })

end NativePrefixCache

inductive CacheCall where
  | allocate (prompts : List (List Int)) (enablePrefixCaching : Bool)
  | ensureCapacity (sequenceIds positions : List Int)
  | release

structure CacheSession where
  cache : NativePrefixCache
  prompts : List (List Int) := []

def CacheSession.call (s : CacheSession) : CacheCall → CacheSession
  | .allocate prompts enable =>
    match s.cache.allocate prompts enable with
    | (.ok _, c) => ⟨c, prompts⟩
    | (.error _, c) => ⟨c, s.prompts⟩
  | .ensureCapacity sequenceIds positions => ⟨(s.cache.ensureCapacity sequenceIds positions).2, s.prompts⟩
  | .release => ⟨s.cache.release.2, s.prompts⟩

end VllmAscend
