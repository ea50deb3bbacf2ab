import Arqma.Cryptonote.Reward

/-!
# The difficulty window and its cache

`Blockchain::get_difficulty_for_next_block` (`src/cryptonote_core/blockchain.cpp`) passes
the timestamps and cumulative difficulties of the last `get_difficulty_blocks_count(version)`
blocks of the main chain, the genesis block left out, to the difficulty algorithm of the
version. It keeps them between calls in `m_timestamps` and `m_difficulties`, for the chain
height `m_timestamps_and_difficulties_height`. When the chain has grown by one block since,
and the cache is long enough, it appends that block and drops the oldest ones. Otherwise it
reads the window again from the database. Every path that takes blocks off the chain sets
the cached height to 0. `get_next_difficulty_for_alternative_chain` builds the window of a
block on an alternative chain from the main-chain blocks below the fork and the alternative
blocks.

## The model

The database is the list of main-chain blocks, genesis first, with what the difficulty code
reads of each block. The four difficulty algorithms are parameters (`DifficultyAlgorithms`),
and the dispatch on the version is modelled. The state is the chain and the three cache
fields. A run is made of these steps:
* blocks added to the chain, as `handle_block_to_main_chain` does;
* `pop_block_from_blockchain`, which resets the cache even when it then throws on the
  genesis block;
* `reset_and_set_genesis_block`;
* the resets of the cache that `init`, `rollback_blockchain_switching`,
  `switch_to_alternative_blockchain` and `handle_alternative_block` make before they change
  the chain through the other steps;
* `get_difficulty_for_next_block` itself.

`m_difficulty_for_next_block_top_hash` is never assigned after the constructor, so its early
return fires only on a top block whose id is `null_hash`. It then returns the constructor's
`m_difficulty_for_next_block` of 1. `m_fixed_difficulty`, a test option that is 0 on the
networks, is left out.

## What is proved

* `difficultyWindow`: the window as the code means it, the blocks
  `[max 1 (H - N), H)` of a chain of height `H` for `N` blocks.
* `getDifficultyForNextBlock_eq_window`: from every reachable state,
  `get_difficulty_for_next_block` returns the algorithm of the version applied to exactly
  that window of the current chain, on the cached path as on the recomputing one.
* `getNextDifficultyForAlternativeChain_eq_window`: the difficulty of a block on an
  alternative chain is the one the main-chain function computes for the chain made of the
  main chain below the fork and the alternative blocks, and the internal-error return of 0
  is never taken.
-/

namespace Arqma.Cryptonote

variable {η : Type}

/-! ### Blocks, versions and algorithms -/

/-- What the difficulty code reads of a block in the database: `get_block_timestamp`,
`get_block_cumulative_difficulty`, and the id that `top_block_hash` returns. -/
structure BlockInfo (η : Type) where
  timestamp : ℕ
  cumulativeDifficulty : ℕ
  id : η
  deriving DecidableEq, Repr

/-- `DIFFICULTY_BLOCKS_COUNT`: `DIFFICULTY_WINDOW + DIFFICULTY_LAG`. -/
def difficultyBlocksCount : ℕ := 720 + 15

/-- `DIFFICULTY_BLOCKS_COUNT_V2`: `DIFFICULTY_WINDOW_V2 + 1`. -/
def difficultyBlocksCountV2 : ℕ := 30 + 1

/-- `DIFFICULTY_BLOCKS_COUNT_V3`: `DIFFICULTY_WINDOW_V3 + 1`. -/
def difficultyBlocksCountV3 : ℕ := 17 + 1

/-- `DIFFICULTY_BLOCKS_COUNT_V11`: `DIFFICULTY_WINDOW_V11 + 1`. -/
def difficultyBlocksCountV11 : ℕ := 90 + 1

/-- `DIFFICULTY_BLOCKS_COUNT_V16`: `DIFFICULTY_WINDOW_V16 + 1`. -/
def difficultyBlocksCountV16 : ℕ := 90 + 1

/-- `get_difficulty_blocks_count(version)`. -/
def getDifficultyBlocksCount (version : ℕ) : ℕ :=
  if version < 7 then difficultyBlocksCount
  else if version < 9 then difficultyBlocksCountV2
  else if version < 10 then difficultyBlocksCountV3
  else if version < 16 then difficultyBlocksCountV11
  else difficultyBlocksCountV16

/-- The difficulty algorithms of `difficulty.cpp`, on the timestamps and the cumulative
difficulties of a window: `next_difficulty_v16`, `next_difficulty_lwma_4`,
`next_difficulty_lwma` (with the version) and `next_difficulty` (with the target). -/
structure DifficultyAlgorithms where
  v16 : List ℕ → List ℕ → ℕ
  lwma4 : List ℕ → List ℕ → ℕ
  lwma : List ℕ → List ℕ → ℕ → ℕ
  original : List ℕ → List ℕ → ℕ → ℕ

/-- The dispatch on the version that ends both difficulty functions of `Blockchain`. -/
def DifficultyAlgorithms.nextDifficulty (algs : DifficultyAlgorithms) (version : ℕ)
    (timestamps difficulties : List ℕ) : ℕ :=
  if 16 ≤ version then algs.v16 timestamps difficulties
  else if 10 ≤ version then algs.lwma4 timestamps difficulties
  else if 7 ≤ version then algs.lwma timestamps difficulties version
  else algs.original timestamps difficulties difficultyTargetV2

/-- The algorithm of the version on the timestamps and cumulative difficulties of some blocks. -/
def DifficultyAlgorithms.ofBlocks (algs : DifficultyAlgorithms) (version : ℕ)
    (blocks : List (BlockInfo η)) : ℕ :=
  algs.nextDifficulty version (blocks.map BlockInfo.timestamp) (blocks.map BlockInfo.cumulativeDifficulty)

/-- **The window.** The blocks whose timestamps and difficulties the next block's difficulty
is computed from: the last `count` blocks of the chain, never the genesis block. -/
def difficultyWindow (chain : List (BlockInfo η)) (count : ℕ) : List (BlockInfo η) :=
  chain.drop (max 1 (chain.length - count))

/-! ### `get_difficulty_for_next_block` -/

/-- The state `get_difficulty_for_next_block` reads and writes: the main chain and the cache. -/
structure DifficultyState (η : Type) where
  /-- The main chain in the database, genesis first. -/
  chain : List (BlockInfo η)
  /-- `m_timestamps`. -/
  timestamps : List ℕ
  /-- `m_difficulties`. -/
  difficulties : List ℕ
  /-- `m_timestamps_and_difficulties_height`. -/
  cacheHeight : ℕ

/-- `while (v.size() > count) v.erase(v.begin())`. -/
def eraseFrontWhileLonger (count : ℕ) : List ℕ → List ℕ
  | [] => []
  | x :: rest => if count < rest.length + 1 then eraseFrontWhileLonger count rest else x :: rest

/-- `get_difficulty_for_next_block()`: the difficulty, and the state with its cache. -/
def getDifficultyForNextBlock [DecidableEq η] (nullHash : η) (algs : DifficultyAlgorithms)
    (version : ℕ) (st : DifficultyState η) : ℕ × DifficultyState η :=
  match st.chain.getLast? with
  -- `top_block_hash` of an empty database is `null_hash`
  | none => (1, st)
  | some top =>
    -- `m_difficulty_for_next_block_top_hash` is still the constructor's `null_hash`
    if top.id = nullHash then (1, st)
    else
      let height := st.chain.length
      let difficultyBlocksCount := getDifficultyBlocksCount version
      if st.cacheHeight ≠ 0 ∧ Word64.sub height st.cacheHeight = 1 ∧
          difficultyBlocksCount ≤ st.timestamps.length then
        -- the block at `height - 1` is the top block
        let timestamps := eraseFrontWhileLonger difficultyBlocksCount (st.timestamps ++ [top.timestamp])
        let difficulties := eraseFrontWhileLonger difficultyBlocksCount
          (st.difficulties ++ [top.cumulativeDifficulty])
        (algs.nextDifficulty version timestamps difficulties,
          { st with timestamps, difficulties, cacheHeight := height })
      else
        let offset := height - min height difficultyBlocksCount
        let offset := if offset = 0 then offset + 1 else offset
        let blocks := (st.chain.drop offset).take (height - offset)
        let timestamps := blocks.map BlockInfo.timestamp
        let difficulties := blocks.map BlockInfo.cumulativeDifficulty
        (algs.nextDifficulty version timestamps difficulties,
          { st with timestamps, difficulties, cacheHeight := height })

/-- `pop_block_from_blockchain()`: the cache is reset first, then the top block is popped;
the genesis block is never popped (the function throws). -/
def popBlockFromBlockchain (st : DifficultyState η) : DifficultyState η :=
  let st := { st with cacheHeight := 0 }
  if 1 < st.chain.length then { st with chain := st.chain.dropLast } else st

/-- `reset_and_set_genesis_block(b)`: the database holds the genesis block alone. -/
def resetAndSetGenesisBlock (st : DifficultyState η) (genesis : BlockInfo η) : DifficultyState η :=
  { st with chain := [genesis], cacheHeight := 0 }

/-- A state as `Blockchain::init` leaves it over a database that holds the chain. -/
def DifficultyState.init (chain : List (BlockInfo η)) : DifficultyState η := ⟨chain, [], [], 0⟩

/-- One step of a run. -/
inductive DifficultyStep [DecidableEq η] (nullHash : η) (algs : DifficultyAlgorithms) :
    DifficultyState η → DifficultyState η → Prop
  /-- A block added to the main chain; the database holds fewer than `2 ^ 64` blocks. -/
  | addBlock (st : DifficultyState η) (b : BlockInfo η) (hlen : st.chain.length + 1 < 2 ^ 64) :
      DifficultyStep nullHash algs st { st with chain := st.chain ++ [b] }
  | popBlock (st : DifficultyState η) : DifficultyStep nullHash algs st (popBlockFromBlockchain st)
  | resetAndSetGenesisBlock (st : DifficultyState η) (genesis : BlockInfo η) :
      DifficultyStep nullHash algs st (resetAndSetGenesisBlock st genesis)
  /-- The reset of `init`, `rollback_blockchain_switching`, `switch_to_alternative_blockchain`
  and `handle_alternative_block`. -/
  | invalidate (st : DifficultyState η) : DifficultyStep nullHash algs st { st with cacheHeight := 0 }
  | getDifficultyForNextBlock (st : DifficultyState η) (version : ℕ) :
      DifficultyStep nullHash algs st (getDifficultyForNextBlock nullHash algs version st).2

/-- The states a run reaches from `init` over a chain that holds its genesis block. -/
inductive DifficultyReachable [DecidableEq η] (nullHash : η) (algs : DifficultyAlgorithms) :
    DifficultyState η → Prop
  | init (chain : List (BlockInfo η)) (hne : chain ≠ []) (hlen : chain.length < 2 ^ 64) :
      DifficultyReachable nullHash algs (DifficultyState.init chain)
  | step {st st' : DifficultyState η} : DifficultyReachable nullHash algs st →
      DifficultyStep nullHash algs st st' → DifficultyReachable nullHash algs st'

/-! ### The two paths compute the window -/

/-- The erase loop keeps the last `count` values. -/
theorem eraseFrontWhileLonger_eq (count : ℕ) (l : List ℕ) :
    eraseFrontWhileLonger count l = l.drop (l.length - count) := by
  induction l with
  | nil => simp [eraseFrontWhileLonger]
  | cons x rest ih =>
    rw [eraseFrontWhileLonger]
    split_ifs with hlong
    · rw [ih, List.length_cons, show rest.length + 1 - count = rest.length - count + 1 by omega,
        List.drop_succ_cons]
    · rw [List.length_cons, show rest.length + 1 - count = 0 by omega, List.drop_zero]

/-- The recomputing path's first height is the window's. -/
theorem recompute_offset (height count : ℕ) :
    (if height - min height count = 0 then height - min height count + 1 else height - min height count) =
      max 1 (height - count) := by
  split_ifs <;> omega

/-- What a reachable state keeps: the chain holds its genesis block and fewer than `2 ^ 64`
blocks, and a cache for a height `c` holds the blocks `[s, c)` of the chain, for some `s ≥ 1`. -/
structure CacheInv (st : DifficultyState η) : Prop where
  chain_ne_nil : st.chain ≠ []
  length_lt : st.chain.length < 2 ^ 64
  cached : st.cacheHeight ≠ 0 → st.cacheHeight ≤ st.chain.length ∧ ∃ start, 1 ≤ start ∧
    st.timestamps = ((st.chain.take st.cacheHeight).drop start).map BlockInfo.timestamp ∧
    st.difficulties = ((st.chain.take st.cacheHeight).drop start).map BlockInfo.cumulativeDifficulty

/-- The cached path: a cache of the blocks `[s, H - 1)` that holds at least `count` of them,
with the top block appended and cut to its last `count` values, is the window at `H`. -/
theorem cached_window {f : BlockInfo η → ℕ} {chain : List (BlockInfo η)} {top : BlockInfo η}
    {start count : ℕ} (htop : chain.getLast? = some top) (hstart : 1 ≤ start) (hcount : 0 < count)
    (hlong : count ≤ ((chain.take (chain.length - 1)).drop start).length) :
    eraseFrontWhileLonger count (((chain.take (chain.length - 1)).drop start).map f ++ [f top]) =
      (difficultyWindow chain count).map f := by
  have hsplit : chain = chain.dropLast ++ [top] := (List.dropLast_append_getLast? top htop).symm
  have hlen : chain.dropLast.length + 1 = chain.length := by
    conv_rhs => rw [hsplit]
    rw [List.length_append, List.length_singleton]
  have htake : chain.take (chain.length - 1) = chain.dropLast := by
    rw [List.dropLast_eq_take]
  rw [htake] at hlong ⊢
  rw [List.length_drop] at hlong
  -- the cache with the top block appended is the chain from `start` on
  have happend : (chain.dropLast.drop start).map f ++ [f top] = (chain.drop start).map f := by
    conv_rhs => rw [hsplit]
    rw [List.drop_append_of_le_length (by omega), List.map_append, List.map_singleton]
  have hfirst : max 1 (chain.length - count) = start + (chain.length - start - count) := by omega
  rw [happend, eraseFrontWhileLonger_eq, difficultyWindow, List.length_map, List.length_drop,
    ← List.map_drop, List.drop_drop, hfirst]

/-- **What one call does.** From a state that keeps the invariant, with a top block whose id
is not `null_hash`, `get_difficulty_for_next_block` returns the algorithm of the version on
the window, and leaves the window in the cache for the current height, whichever path it
takes. -/
theorem getDifficultyForNextBlock_spec [DecidableEq η] {nullHash : η} {algs : DifficultyAlgorithms}
    {version : ℕ} {st : DifficultyState η} (hinv : CacheInv st)
    (htop : ∀ top, st.chain.getLast? = some top → top.id ≠ nullHash) :
    getDifficultyForNextBlock nullHash algs version st =
      (algs.ofBlocks version (difficultyWindow st.chain (getDifficultyBlocksCount version)),
        { st with
          timestamps := (difficultyWindow st.chain (getDifficultyBlocksCount version)).map BlockInfo.timestamp
          difficulties := (difficultyWindow st.chain (getDifficultyBlocksCount version)).map
            BlockInfo.cumulativeDifficulty
          cacheHeight := st.chain.length }) := by
  obtain ⟨top, hlast⟩ := Option.ne_none_iff_exists'.mp (mt List.getLast?_eq_none_iff.mp hinv.chain_ne_nil)
  unfold getDifficultyForNextBlock
  rw [hlast]
  dsimp only
  rw [if_neg (htop top hlast)]
  split
  · -- the cached path: the chain grew by exactly one block since the cache was filled
    rename_i hfast
    obtain ⟨hne, hsub, hlong⟩ := hfast
    obtain ⟨hle, start, hstart, hts, hds⟩ := hinv.cached hne
    have hheight : st.cacheHeight = st.chain.length - 1 := by
      rw [Word64.sub_of_le hle hinv.length_lt] at hsub
      omega
    rw [hheight] at hts hds
    rw [hts, List.length_map] at hlong
    have hcount : 0 < getDifficultyBlocksCount version := by
      unfold getDifficultyBlocksCount
      split_ifs <;> decide
    rw [hts, hds, cached_window hlast hstart hcount hlong, cached_window hlast hstart hcount hlong]
    rfl
  · -- the recomputing path reads the window from the database
    rw [recompute_offset, List.take_of_length_le (by rw [List.length_drop])]
    rfl

/-- A call on a top block whose id is `null_hash` returns 1 and changes nothing. -/
theorem getDifficultyForNextBlock_of_null [DecidableEq η] {nullHash : η} {algs : DifficultyAlgorithms}
    {version : ℕ} {st : DifficultyState η} {top : BlockInfo η} (hlast : st.chain.getLast? = some top)
    (hnull : top.id = nullHash) :
    getDifficultyForNextBlock nullHash algs version st = (1, st) := by
  unfold getDifficultyForNextBlock
  rw [hlast]
  dsimp only
  rw [if_pos hnull]

/-! ### Runs -/

theorem CacheInv.getDifficultyForNextBlock [DecidableEq η] {nullHash : η} {algs : DifficultyAlgorithms}
    {version : ℕ} {st : DifficultyState η} (hinv : CacheInv st) :
    CacheInv (getDifficultyForNextBlock nullHash algs version st).2 := by
  obtain ⟨top, hlast⟩ := Option.ne_none_iff_exists'.mp (mt List.getLast?_eq_none_iff.mp hinv.chain_ne_nil)
  by_cases hnull : top.id = nullHash
  · rw [getDifficultyForNextBlock_of_null hlast hnull]
    exact hinv
  · have htop : ∀ t, st.chain.getLast? = some t → t.id ≠ nullHash := by
      intro t ht
      rw [hlast, Option.some.injEq] at ht
      exact ht ▸ hnull
    rw [getDifficultyForNextBlock_spec hinv htop]
    -- the new cache is the window, the chain from `max 1 (H - N)` on
    refine ⟨hinv.chain_ne_nil, hinv.length_lt, fun _ =>
      ⟨le_refl _, max 1 (st.chain.length - getDifficultyBlocksCount version), le_max_left _ _, ?_, ?_⟩⟩
    · dsimp only
      rw [List.take_length]
      rfl
    · dsimp only
      rw [List.take_length]
      rfl

/-- Every step keeps the invariant. -/
theorem CacheInv.step [DecidableEq η] {nullHash : η} {algs : DifficultyAlgorithms}
    {st st' : DifficultyState η} (hinv : CacheInv st) (hstep : DifficultyStep nullHash algs st st') :
    CacheInv st' := by
  cases hstep with
  | addBlock b hlen =>
    -- the blocks below the cached height are still there
    refine ⟨by simp, by simpa using hlen, fun hne => ?_⟩
    obtain ⟨hle, start, hstart, hts, hds⟩ := hinv.cached hne
    refine ⟨by simp only [List.length_append, List.length_singleton]; omega, start, hstart, ?_, ?_⟩
    · dsimp only
      rw [List.take_append_of_le_length hle]
      exact hts
    · dsimp only
      rw [List.take_append_of_le_length hle]
      exact hds
  | popBlock =>
    unfold popBlockFromBlockchain
    dsimp only
    split_ifs with hlong
    · refine ⟨?_, ?_, fun h => (h rfl).elim⟩
      · rw [← List.length_pos_iff, List.length_dropLast]
        omega
      · rw [List.length_dropLast]
        exact lt_of_le_of_lt (Nat.sub_le _ _) hinv.length_lt
    · exact ⟨hinv.chain_ne_nil, hinv.length_lt, fun h => (h rfl).elim⟩
  | resetAndSetGenesisBlock genesis =>
    exact ⟨List.cons_ne_nil _ _, by simp [resetAndSetGenesisBlock], fun h => (h rfl).elim⟩
  | invalidate => exact ⟨hinv.chain_ne_nil, hinv.length_lt, fun h => (h rfl).elim⟩
  | getDifficultyForNextBlock version => exact hinv.getDifficultyForNextBlock

/-- Every reachable state keeps the invariant. -/
theorem DifficultyReachable.cacheInv [DecidableEq η] {nullHash : η} {algs : DifficultyAlgorithms}
    {st : DifficultyState η} (hreach : DifficultyReachable nullHash algs st) : CacheInv st := by
  induction hreach with
  | init chain hne hlen => exact ⟨hne, hlen, fun h => (h rfl).elim⟩
  | step _ hstep ih => exact ih.step hstep

/-- **The cache agrees with a full recomputation.** From every state a run reaches, through
any interleaving of added and popped blocks, resets and earlier calls for any versions,
`get_difficulty_for_next_block` returns the algorithm of the version on exactly the window of
the current chain: its last `get_difficulty_blocks_count(version)` blocks, genesis left out. -/
theorem getDifficultyForNextBlock_eq_window [DecidableEq η] {nullHash : η} {algs : DifficultyAlgorithms}
    {st : DifficultyState η} (hreach : DifficultyReachable nullHash algs st) (version : ℕ)
    (htop : ∀ top, st.chain.getLast? = some top → top.id ≠ nullHash) :
    (getDifficultyForNextBlock nullHash algs version st).1 =
      algs.ofBlocks version (difficultyWindow st.chain (getDifficultyBlocksCount version)) := by
  rw [getDifficultyForNextBlock_spec hreach.cacheInv htop]

/-- Difficulty algorithms that return their number of timestamps, for the statements below. -/
def countingAlgorithms : DifficultyAlgorithms :=
  ⟨fun ts _ => ts.length, fun ts _ => ts.length, fun ts _ _ => ts.length, fun ts _ _ => ts.length⟩

/-- `n` blocks two minutes apart, each of difficulty 1, with ids from 1. -/
def twoMinuteChain (n : ℕ) : List (BlockInfo ℕ) := (List.range n).map fun i => ⟨120 * i, i + 1, i + 1⟩

/-- After a call on a chain of 92 blocks: the cache holds the 91 blocks of the window. -/
def primedState : DifficultyState ℕ :=
  (getDifficultyForNextBlock 0 countingAlgorithms 16 (.init (twoMinuteChain 92))).2

/-- One more block on top of `primedState`. -/
def cachedState : DifficultyState ℕ := { primedState with chain := primedState.chain ++ [⟨11040, 93, 93⟩] }

/-- The call on `cachedState` takes the cached path, and returns the algorithm on the window
of the 93-block chain, its last 91 blocks. -/
theorem getDifficultyForNextBlock_eq_window_cached :
    (cachedState.cacheHeight ≠ 0 ∧ Word64.sub cachedState.chain.length cachedState.cacheHeight = 1 ∧
      getDifficultyBlocksCount 16 ≤ cachedState.timestamps.length) ∧
    (getDifficultyForNextBlock 0 countingAlgorithms 16 cachedState).1 =
      countingAlgorithms.ofBlocks 16 (difficultyWindow cachedState.chain (getDifficultyBlocksCount 16)) ∧
    (getDifficultyForNextBlock 0 countingAlgorithms 16 cachedState).1 = 91 := by
  have hprimed : DifficultyReachable 0 countingAlgorithms primedState :=
    .step (.init (twoMinuteChain 92) (by simp [twoMinuteChain]) (by simp [twoMinuteChain]))
      (.getDifficultyForNextBlock _ 16)
  have hlen : primedState.chain.length + 1 < 2 ^ 64 := by decide
  have hcached : DifficultyReachable 0 countingAlgorithms cachedState :=
    .step hprimed (.addBlock _ ⟨11040, 93, 93⟩ hlen)
  refine ⟨by decide, getDifficultyForNextBlock_eq_window hcached 16 ?_, by decide⟩
  intro top htop
  rw [cachedState, List.getLast?_concat, Option.some.injEq] at htop
  rw [← htop]
  decide

/-! ### `get_next_difficulty_for_alternative_chain` -/

/-- A block of an alternative chain, `block_extended_info`: its height and what the
difficulty reads of it. -/
structure AltBlock (η : Type) where
  height : ℕ
  info : BlockInfo η

/-- The loop over an alternative chain from its top block down, into the two vectors resized
to `difficulty_blocks_count`: the `count`-th block from the top goes to `max_i - count`, and
the loop stops after `difficulty_blocks_count` blocks. -/
def fillFromTop (maxI difficultyBlocksCount : ℕ) :
    ℕ → List ℕ × List ℕ → List (AltBlock η) → List ℕ × List ℕ
  | _, acc, [] => acc
  | count, (timestamps, difficulties), bei :: rest =>
    let acc := (timestamps.set (maxI - count) bei.info.timestamp,
      difficulties.set (maxI - count) bei.info.cumulativeDifficulty)
    if difficultyBlocksCount ≤ count + 1 then acc
    else fillFromTop maxI difficultyBlocksCount (count + 1) acc rest

/-- `main_chain_stop_offset`: the height of the first alternative block, the height the
alternative chain forks at, or `alt_block_height` for an empty one. -/
def mainChainStopOffset (altChain : List (AltBlock η)) (altBlockHeight : ℕ) : ℕ :=
  match altChain with
  | [] => altBlockHeight
  | bei :: _ => bei.height

/-- `get_next_difficulty_for_alternative_chain(alt_chain, alt_block_height)` over the main
chain `chain`. -/
def getNextDifficultyForAlternativeChain (algs : DifficultyAlgorithms) (version : ℕ)
    (chain : List (BlockInfo η)) (altChain : List (AltBlock η)) (altBlockHeight : ℕ) : ℕ :=
  let difficultyBlocksCount := getDifficultyBlocksCount version
  if altChain.length < difficultyBlocksCount then
    -- the alternative chain is too short: the main chain below the fork makes up the rest
    let mainChainStopOffset := mainChainStopOffset altChain altBlockHeight
    let mainChainCount := difficultyBlocksCount - min difficultyBlocksCount altChain.length
    let mainChainCount := min mainChainCount mainChainStopOffset
    let mainChainStartOffset := mainChainStopOffset - mainChainCount
    -- skip the genesis block
    let mainChainStartOffset :=
      if mainChainStartOffset = 0 then mainChainStartOffset + 1 else mainChainStartOffset
    let main := (chain.drop mainChainStartOffset).take (mainChainStopOffset - mainChainStartOffset)
    -- `CHECK_AND_ASSERT_MES(..., false, ...)`: the `false` is returned as a difficulty of 0
    if difficultyBlocksCount < altChain.length + main.length then 0
    else
      algs.nextDifficulty version (main.map BlockInfo.timestamp ++ altChain.map (·.info.timestamp))
        (main.map BlockInfo.cumulativeDifficulty ++ altChain.map (·.info.cumulativeDifficulty))
  else
    let (timestamps, difficulties) := fillFromTop (difficultyBlocksCount - 1) difficultyBlocksCount 0
      (List.replicate difficultyBlocksCount 0, List.replicate difficultyBlocksCount 0) altChain.reverse
    algs.nextDifficulty version timestamps difficulties

/-- Setting the `n`-th value and dropping the `n` before it. -/
theorem drop_set_self {α : Type} {l : List α} {n : ℕ} (a : α) (hn : n < l.length) :
    (l.set n a).drop n = a :: l.drop (n + 1) := by
  rw [List.set_eq_take_append_cons_drop, if_pos hn, List.drop_left' (by simp; omega)]

/-- The fill loop, from the `count`-th block from the top on: the next
`difficulty_blocks_count - count` blocks, in chain order, land below the slots already
written. -/
theorem fillFromTop_spec {limit : ℕ} :
    ∀ (xs : List (AltBlock η)) (count : ℕ) (timestamps difficulties : List ℕ),
      count < limit → timestamps.length = limit → difficulties.length = limit →
      limit - count ≤ xs.length →
      fillFromTop (limit - 1) limit count (timestamps, difficulties) xs =
        ((xs.take (limit - count)).reverse.map (·.info.timestamp) ++ timestamps.drop (limit - count),
          (xs.take (limit - count)).reverse.map (·.info.cumulativeDifficulty) ++
            difficulties.drop (limit - count))
  | [], _, _, _, hc, _, _, hxs => by simp at hxs; omega
  | bei :: rest, count, timestamps, difficulties, hc, hts, hds, hxs => by
    rw [fillFromTop]
    -- the slot written now is the one just below those the rest of the loop writes
    have hslot : limit - 1 - count = limit - (count + 1) := by omega
    have hsucc : limit - count = limit - (count + 1) + 1 := by omega
    rw [hslot, hsucc, List.take_succ_cons, List.reverse_cons, List.map_append, List.map_append,
      List.append_assoc, List.append_assoc]
    split_ifs with hlast
    · rw [show limit - (count + 1) = 0 by omega]
      simp only [List.take_zero, List.reverse_nil, List.map_nil, List.nil_append,
        List.map_singleton, List.singleton_append, Prod.mk.injEq]
      constructor
      · rw [← drop_set_self (l := timestamps) (n := 0) bei.info.timestamp (by omega), List.drop_zero]
      · rw [← drop_set_self (l := difficulties) (n := 0) bei.info.cumulativeDifficulty (by omega),
          List.drop_zero]
    · rw [fillFromTop_spec rest (count + 1) _ _ (by omega) (by simp [hts]) (by simp [hds])
        (by simp at hxs; omega)]
      rw [drop_set_self _ (by omega), drop_set_self _ (by omega)]
      rfl

/-- The loop over a long enough alternative chain writes its last `difficulty_blocks_count`
blocks, in chain order. -/
theorem fillFromTop_eq {limit : ℕ} {altChain : List (AltBlock η)} (hpos : 0 < limit)
    (hlong : limit ≤ altChain.length) :
    fillFromTop (limit - 1) limit 0 (List.replicate limit 0, List.replicate limit 0) altChain.reverse =
      ((altChain.drop (altChain.length - limit)).map (·.info.timestamp),
        (altChain.drop (altChain.length - limit)).map (·.info.cumulativeDifficulty)) := by
  rw [fillFromTop_spec altChain.reverse 0 _ _ hpos (by simp) (by simp) (by simp; omega),
    Nat.sub_zero, List.take_reverse, List.reverse_reverse]
  simp

/-- The main-chain blocks the short branch reads start where the window of the joined chain
starts. -/
theorem mainChainStartOffset_eq {stop count altLength : ℕ} (hstop : 1 ≤ stop) (hshort : altLength < count) :
    (if stop - min (count - min count altLength) stop = 0 then stop - min (count - min count altLength) stop + 1
      else stop - min (count - min count altLength) stop) = max 1 (stop + altLength - count) := by
  split_ifs <;> omega

/-- **An alternative chain's difficulty is the main-chain difficulty of the chain it forms.**
For an alternative chain forking at a height `stop` with `1 ≤ stop ≤` the main chain's height,
`get_next_difficulty_for_alternative_chain` returns the algorithm of the version on the window
of the chain made of the main chain's first `stop` blocks and the alternative blocks. That is
what `get_difficulty_for_next_block` returns with that chain as the main chain. The 0 of the
internal-error branch is never returned. -/
theorem getNextDifficultyForAlternativeChain_eq_window (algs : DifficultyAlgorithms) (version : ℕ)
    (chain : List (BlockInfo η)) (altChain : List (AltBlock η)) (altBlockHeight : ℕ)
    (hstop : 1 ≤ mainChainStopOffset altChain altBlockHeight)
    (hmain : mainChainStopOffset altChain altBlockHeight ≤ chain.length) :
    getNextDifficultyForAlternativeChain algs version chain altChain altBlockHeight =
      algs.ofBlocks version (difficultyWindow
        (chain.take (mainChainStopOffset altChain altBlockHeight) ++ altChain.map AltBlock.info)
        (getDifficultyBlocksCount version)) := by
  have hpos : 0 < getDifficultyBlocksCount version := by
    unfold getDifficultyBlocksCount
    split_ifs <;> decide
  unfold getNextDifficultyForAlternativeChain DifficultyAlgorithms.ofBlocks difficultyWindow
  dsimp only
  generalize getDifficultyBlocksCount version = count at hpos ⊢
  generalize mainChainStopOffset altChain altBlockHeight = stop at hstop hmain ⊢
  have htake : (chain.take stop).length = stop := List.length_take_of_le hmain
  simp only [List.length_append, List.length_map, htake]
  split
  · -- a short alternative chain: the main chain makes up the rest of the window
    rename_i hshort
    rw [mainChainStartOffset_eq hstop hshort]
    have hfirst : max 1 (stop + altChain.length - count) ≤ stop := by omega
    -- the main-chain blocks read fit with the alternative ones: no internal error
    rw [if_neg (by rw [List.length_take, List.length_drop]; omega),
      List.drop_append_of_le_length (by rw [htake]; exact hfirst), List.drop_take]
    simp only [List.map_append, List.map_map]
    rfl
  · -- a long alternative chain: its last `count` blocks
    rename_i hshort
    rw [fillFromTop_eq hpos (not_lt.mp hshort)]
    have hfirst : max 1 (stop + altChain.length - count) =
        (chain.take stop).length + (altChain.length - count) := by
      rw [htake]
      omega
    rw [hfirst, List.drop_append, @List.drop_eq_nil_of_le _ (chain.take stop) _ (by omega),
      Nat.add_sub_cancel_left]
    simp only [List.nil_append, List.map_drop, List.map_map]
    rfl

/-- An alternative block at height 2 over a main chain of three blocks. -/
theorem getNextDifficultyForAlternativeChain_eq_window_fork :
    getNextDifficultyForAlternativeChain countingAlgorithms 16 [⟨0, 1, 1⟩, ⟨120, 2, 2⟩, ⟨240, 3, (3 : ℕ)⟩]
        [⟨2, ⟨250, 4, 4⟩⟩] 3 =
      countingAlgorithms.ofBlocks 16 (difficultyWindow
        ([⟨0, 1, 1⟩, ⟨120, 2, 2⟩, ⟨240, 3, (3 : ℕ)⟩].take (mainChainStopOffset [⟨2, ⟨250, 4, 4⟩⟩] 3) ++
          [(⟨2, ⟨250, 4, 4⟩⟩ : AltBlock ℕ)].map AltBlock.info) (getDifficultyBlocksCount 16)) :=
  getNextDifficultyForAlternativeChain_eq_window _ _ _ _ _ (by decide) (by decide)

end Arqma.Cryptonote
