import InferSched.Basic
import InferSched.Library.AtomicObject
import InferSched.Library.Holdings
import InferSched.Library.RefPool

/-! # The paged KV cache

The block allocator of an engine (`paged_kv_cache.cpp`): every block has a
reference count, sequences and pinned prefixes list the blocks they hold, and
blocks without holder wait on a free stack. The bodies follow the source
statement by statement; the reference counts are 32-bit words and the blocks of
a holder are in the order the source stores them. `freeList` lists the source's
`free_list_` from its back, where blocks are pushed and popped.
-/

namespace InferSched.Engine

open Library

/-- Index of a KV block. -/
abbrev BlockId := ℕ

/-- Width of a reference count. -/
abbrev refcountBits : ℕ := 32

/-- The outcomes of an allocation. -/
inductive AllocationStatus
  | allocated
  | sequenceAlreadyExists
  | invalidSharedBlock
  | insufficientBlocks
deriving DecidableEq, Repr

/-- A pool of counted blocks, with the sequences and the pinned prefixes that hold them. -/
structure PagedKvCache extends RefPool where
  blockSizeTokens : ℕ
  sequenceBlocks : Holdings Text BlockId
  prefixBlocks : Holdings Text BlockId

namespace PagedKvCache

/-- The constructor, with the message of the exception it throws. -/
def new (blockCount blockSizeTokens : ℕ) : Except Text PagedKvCache :=
  if blockCount > 2 ^ 32 - 1 then
    .error "block_count exceeds BlockId range".toList
  else if blockSizeTokens = 0 then
    .error "block_size_tokens must be positive".toList
  else
    .ok { RefPool.full blockCount with
      blockSizeTokens := blockSizeTokens
      sequenceBlocks := ∅
      prefixBlocks := ∅ }

/-- An accepted cache has all blocks free and nothing listed. -/
theorem new_eq_ok {blockCount blockSizeTokens : ℕ} {cache : PagedKvCache}
    (accepted : new blockCount blockSizeTokens = .ok cache) :
    blockCount < 2 ^ 32 ∧ 0 < blockSizeTokens ∧
      cache = { RefPool.full blockCount with
        blockSizeTokens := blockSizeTokens
        sequenceBlocks := ∅
        prefixBlocks := ∅ } := by
  unfold new at accepted
  split at accepted
  · cases accepted
  · next small =>
      split at accepted
      · cases accepted
      · next positive =>
          exact ⟨by omega, Nat.pos_of_ne_zero positive, (Except.ok.inj accepted).symm⟩

/-- The blocks that the pool was built with. -/
def totalBlocks (cache : PagedKvCache) : ℕ :=
  cache.refcounts.length

/-- The blocks that nothing holds. -/
def freeBlocks (cache : PagedKvCache) : ℕ :=
  cache.freeList.length

/-- The blocks that something holds. -/
def allocatedBlocks (cache : PagedKvCache) : ℕ :=
  Word.sub sizeBits cache.totalBlocks cache.freeBlocks

/-- The sequences that hold blocks. -/
def sequenceCount (cache : PagedKvCache) : ℕ :=
  cache.sequenceBlocks.entries.length

/-- The blocks of a sequence, none when it is unknown. -/
def blocksFor (cache : PagedKvCache) (sequenceId : Text) : List BlockId :=
  (cache.sequenceBlocks.lookup sequenceId).getD []

/-- How many holders a block has. Zero for a number that is not one of a block. -/
def refCount (cache : PagedKvCache) (block : BlockId) : ℕ :=
  cache.toRefPool.refCount block

/-- The check both `Allocate` and `PinPrefix` make before they take another
reference to each listed block; `unique` holds the blocks seen so far. -/
def sharable (cache : PagedKvCache) : List BlockId → List BlockId → Bool
  | _, [] => true
  | unique, block :: rest =>
      if block ≥ cache.totalBlocks ∨ cache.refCount block = 0 ∨ block ∈ unique then false
      else cache.sharable (block :: unique) rest

/-- Give a new sequence a shared prefix and free blocks for the rest, or change nothing. -/
def allocate (cache : PagedKvCache) (sequenceId : Text) (requiredBlocks : ℕ)
    (sharedPrefixBlocks : List BlockId) : AllocationStatus × PagedKvCache :=
  if sequenceId ∈ cache.sequenceBlocks then (.sequenceAlreadyExists, cache)
  else if sharedPrefixBlocks.length > requiredBlocks then (.invalidSharedBlock, cache)
  else if cache.sharable [] sharedPrefixBlocks = false then (.invalidSharedBlock, cache)
  else
    let newBlockCount := requiredBlocks - sharedPrefixBlocks.length
    if cache.freeList.length < newBlockCount then (.insufficientBlocks, cache)
    else
      let shared := sharedPrefixBlocks.foldl (RefPool.retain refcountBits) cache.toRefPool
      let claimed := shared.claim newBlockCount
      (.allocated, { cache with
        toRefPool := claimed.1
        sequenceBlocks :=
          cache.sequenceBlocks.insert sequenceId (sharedPrefixBlocks ++ claimed.2) })

/-- Release the blocks of a sequence. False when there is no such sequence. -/
def free (cache : PagedKvCache) (sequenceId : Text) : Bool × PagedKvCache :=
  match cache.sequenceBlocks.lookup sequenceId with
  | none => (false, cache)
  | some blocks =>
      (true, { cache with
        toRefPool := blocks.foldl (RefPool.release refcountBits) cache.toRefPool
        sequenceBlocks := cache.sequenceBlocks.erase sequenceId })

/-- Give a sequence more blocks, or change nothing. -/
def appendBlocks (cache : PagedKvCache) (sequenceId : Text) (additionalBlocks : ℕ) :
    AllocationStatus × PagedKvCache :=
  match cache.sequenceBlocks.lookup sequenceId with
  | none => (.invalidSharedBlock, cache)
  | some blocks =>
      if cache.freeList.length < additionalBlocks then (.insufficientBlocks, cache)
      else
        let claimed := cache.toRefPool.claim additionalBlocks
        (.allocated, { cache with
          toRefPool := claimed.1
          sequenceBlocks := cache.sequenceBlocks.insert sequenceId (blocks ++ claimed.2) })

/-- Hold blocks under a key. False when the key is taken or the blocks cannot be shared. -/
def pinPrefix (cache : PagedKvCache) (prefixKey : Text) (blocks : List BlockId) :
    Bool × PagedKvCache :=
  if prefixKey ∈ cache.prefixBlocks ∨ blocks = [] then (false, cache)
  else if cache.sharable [] blocks = false then (false, cache)
  else
    (true, { cache with
      toRefPool := blocks.foldl (RefPool.retain refcountBits) cache.toRefPool
      prefixBlocks := cache.prefixBlocks.insert prefixKey blocks })

/-- Release the blocks of a prefix. -/
def unpinPrefix (cache : PagedKvCache) (prefixKey : Text) : Bool × PagedKvCache :=
  match cache.prefixBlocks.lookup prefixKey with
  | none => (false, cache)
  | some blocks =>
      (true, { cache with
        toRefPool := blocks.foldl (RefPool.release refcountBits) cache.toRefPool
        prefixBlocks := cache.prefixBlocks.erase prefixKey })

/-- One holder's pass of `CheckInvariants`: count its blocks in `observed`, or
fail on a block out of range or listed twice. -/
def observeHolder (total : ℕ) : List BlockId → List BlockId → List ℕ → Option (List ℕ)
  | _, [], observed => some observed
  | unique, block :: rest, observed =>
      if block ≥ total ∨ block ∈ unique then none
      else observeHolder total (block :: unique) rest
        (observed.set block (Word.add refcountBits (observed.getD block 0) 1))

/-- The passes over all holders of a table. -/
def observeHolders (total : ℕ) : List (List BlockId) → List ℕ → Option (List ℕ)
  | [], observed => some observed
  | blocks :: rest, observed =>
      (observeHolder total [] blocks observed).bind (observeHolders total rest)

/-- The pass of `CheckInvariants` over the free list. -/
def observeFree (total : ℕ) : List BlockId → List Bool → Option (List Bool)
  | [], observed => some observed
  | block :: rest, observed =>
      if block ≥ total ∨ observed.getD block false = true then none
      else observeFree total rest (observed.set block true)

/-- Every count is the number of holders, and the free list has the blocks without one. -/
def checkInvariants (cache : PagedKvCache) : Bool :=
  let total := cache.totalBlocks
  if Word.add sizeBits cache.allocatedBlocks cache.freeBlocks ≠ total then false
  else
    match (observeHolders total (cache.sequenceBlocks.entries.map Sigma.snd)
        (List.replicate total 0)).bind
      (observeHolders total (cache.prefixBlocks.entries.map Sigma.snd)) with
    | none => false
    | some observedRefs =>
        match observeFree total cache.freeList (List.replicate total false) with
        | none => false
        | some observedFree =>
            (List.range total).all fun block =>
              observedRefs.getD block 0 = cache.refCount block &&
                decide (cache.refCount block = 0) = observedFree.getD block false

/-- The number of sequences and pinned prefixes that list a block. -/
def holders (cache : PagedKvCache) (block : BlockId) : ℕ :=
  cache.sequenceBlocks.holders block + cache.prefixBlocks.holders block

/-- The mutating calls of the cache. -/
inductive Call
  | allocate (sequenceId : Text) (requiredBlocks : ℕ) (sharedPrefixBlocks : List BlockId)
  | free (sequenceId : Text)
  | appendBlocks (sequenceId : Text) (additionalBlocks : ℕ)
  | pinPrefix (prefixKey : Text) (blocks : List BlockId)
  | unpinPrefix (prefixKey : Text)
deriving DecidableEq, Repr

/-- The cache as an object; a call answers an allocation status or a truth
value. -/
def object : AtomicObject PagedKvCache Call (AllocationStatus ⊕ Bool) where
  respond call cache :=
    match call with
    | .allocate sequenceId requiredBlocks shared =>
        Prod.map Sum.inl id (cache.allocate sequenceId requiredBlocks shared)
    | .free sequenceId => Prod.map Sum.inr id (cache.free sequenceId)
    | .appendBlocks sequenceId additionalBlocks =>
        Prod.map Sum.inl id (cache.appendBlocks sequenceId additionalBlocks)
    | .pinPrefix prefixKey blocks => Prod.map Sum.inr id (cache.pinPrefix prefixKey blocks)
    | .unpinPrefix prefixKey => Prod.map Sum.inr id (cache.unpinPrefix prefixKey)

/-- One release call for every live sequence and pinned prefix. -/
def releases (cache : PagedKvCache) : List Call :=
  cache.sequenceBlocks.keys.map Call.free ++ cache.prefixBlocks.keys.map Call.unpinPrefix

end PagedKvCache
end InferSched.Engine
