import VllmAscend.Cache.PrefixCacheSound
import VllmAscend.Lib.Run

/-!
# The pages behind the prefix cache

What the engine does between the calls on its prefix cache: a prefill runs the
tokens of each prompt that the allocation did not report as cached, decoding
runs the positions after the prompt, and both write the pages of the table.
-/

namespace VllmAscend

open Python NativePrefixCache

inductive KvWrite where
  | prefill (tokens : List Int)
  | decode (tokens : List Int)
deriving DecidableEq

structure CacheRow where
  sequence : Nat
  position : Nat
  tokens : List Int

/-- `counts` is `num_cached_tokens`, `done` the sequences whose prefill is complete, `cells` the entries of each page.
-/
structure CachedKv where
  session : CacheSession
  counts : List Nat := []
  done : List Nat := []
  cells : Nat → Nat → Option KvWrite := fun _ _ => none

namespace CachedKv

def prefillRows (s : CachedKv) (i : Nat) : List CacheRow :=
  match s.session.prompts[i]?, s.counts[i]? with
  | some prompt, some cached =>
    (List.range' cached (prompt.length - cached)).map fun p => ⟨i, p, prompt.take (p + 1)⟩
  | _, _ => []

def writeRow (c : NativePrefixCache) (write : List Int → KvWrite) (cells : Nat → Nat → Option KvWrite)
    (row : CacheRow) : Nat → Nat → Option KvWrite :=
  match c.pageAt row.sequence (row.position / c.blockSize) with
  | some b => Function.update cells b (Function.update (cells b) (row.position % c.blockSize) (some (write row.tokens)))
  | none => cells

/-- A packed forward: pages for its positions, then its entries. It writes nothing if the pages run out. -/
def forward (s : CachedKv) (write : List Int → KvWrite) (rows : List CacheRow) : CachedKv × Bool :=
  match s.session.cache.ensureCapacity (rows.map fun row => (row.sequence : Int))
      (rows.map fun row => (row.position : Int)) with
  | (.error _, c) => ({ s with session := ⟨c, s.session.prompts⟩ }, false)
  | (.ok _, c) =>
    ({ s with session := ⟨c, s.session.prompts⟩, cells := rows.foldl (writeRow c write) s.cells }, true)

end CachedKv

inductive CacheEvent where
  | allocate (prompts : List (List Int)) (enablePrefixCaching : Bool)
  | prefill (sequenceIds : List Nat)
  | decode (rows : List CacheRow)
  | release

def CachedKv.step (s : CachedKv) : CacheEvent → CachedKv
  | .allocate prompts enable =>
    match s.session.cache.allocate prompts enable with
    | (.ok allocation, c) => { session := ⟨c, prompts⟩, counts := allocation.numCachedTokens, done := [], cells := s.cells }
    | (.error _, c) => { s with session := ⟨c, s.session.prompts⟩ }
  | .prefill sequenceIds =>
    match s.forward .prefill (sequenceIds.flatMap s.prefillRows) with
    | (s', true) => { s' with done := s.done ++ sequenceIds }
    | (s', false) => s'
  | .decode rows => (s.forward .decode rows).1
  | .release => { s with session := s.session.call .release, counts := [], done := [] }

end VllmAscend
