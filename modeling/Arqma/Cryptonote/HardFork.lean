import Arqma.Lib.Counter

/-!
# Hard forks

`cryptonote::HardFork` (`hardfork.{h,cpp}`): the table of forks (`heights`), the
rolling window of the last blocks' votes (`versions`) with one counter per version
(`last_versions`), and the index of the current fork (`current_fork_index`), kept in
step with the chain database by `add`, `init`, `reorganize_from_block_height`,
`rescan_from_block_height` and `on_block_popped`.

## The model

Versions and votes are `uint8_t` and heights `uint64_t`: naturals, with the bound of a
version kept in the records that hold one. The deque `versions` is a list, front
first; `last_versions` (`unsigned int[256]`) is a function of the version, counted
modulo `2 ^ 32` (`Counter`). The chain database is the part of `BlockchainDB` that the
class reads and writes: the versions of the main chain's blocks, and the table
`hf_versions` of the fork version recorded at each height, where a missing height
makes `get_hard_fork_version` throw.

An operation takes the database and gives the new object, with the new database where
it writes one. `none` stands for an exception, for undefined behaviour (the back of an
empty deque, an index past the table) and for a loop that never ends
(`on_block_popped` down to height 0). `do_check` reads an index past the table, which
only an object with an empty table and no `init` can hold, as a failed check.

Results:
* `add_eq_some_iff`: `add` records the current fork at the block's height and changes
  the object as `addState` does, whatever the database.
* `trimWindow_eq`, `pushVotes_eq`: the loops that pop the oldest votes and push new ones.
* `add_currentForkIndex_le`: `add` never lowers the current fork index.
-/

namespace Arqma.Cryptonote

/-! ### Data -/

/-- `HardFork::Params`: one fork of the table. -/
structure HardFork.Params where
  /-- `version`. -/
  version : ℕ
  /-- `height`: the first height at which the fork may take effect. -/
  height : ℕ
  /-- `threshold`: the percentage of the window that must vote for the fork. -/
  threshold : ℕ
  /-- `time`. -/
  time : ℤ
  version_lt : version < 2 ^ 8
  deriving DecidableEq

/-- The part of `cryptonote::block_header` that `HardFork` reads. -/
structure BlockHeader where
  /-- `major_version`: the fork the block is built for. -/
  majorVersion : ℕ
  /-- `minor_version`: the block's vote. -/
  minorVersion : ℕ
  majorVersion_lt : majorVersion < 2 ^ 8
  minorVersion_lt : minorVersion < 2 ^ 8
  deriving DecidableEq

/-- `get_block_vote`: blocks from before the forks have a minor version of 0, read as
a vote for version 1. -/
def getBlockVote (b : BlockHeader) : ℕ := if b.minorVersion = 0 then 1 else b.minorVersion

/-- `get_block_version`. -/
def getBlockVersion (b : BlockHeader) : ℕ := b.majorVersion

/-- The part of `BlockchainDB` that `HardFork` uses. -/
structure BlockchainDb where
  /-- The main chain, block `h` at position `h`. -/
  blocks : List BlockHeader
  /-- The table `hf_versions`. -/
  hfVersions : ℕ → Option ℕ

namespace BlockchainDb

/-- A database with no block and no recorded version. -/
def empty : BlockchainDb := ⟨[], fun _ => none⟩

/-- `height()`. -/
def height (db : BlockchainDb) : ℕ := db.blocks.length

/-- `get_block_from_height`, which throws past the top. -/
def getBlockFromHeight (db : BlockchainDb) (height : ℕ) : Option BlockHeader := db.blocks[height]?

/-- `get_hard_fork_version`, which throws on a height with no record. -/
def getHardForkVersion (db : BlockchainDb) (height : ℕ) : Option ℕ := db.hfVersions height

/-- `set_hard_fork_version`. -/
def setHardForkVersion (db : BlockchainDb) (height version : ℕ) : BlockchainDb :=
  { db with hfVersions := Function.update db.hfVersions height (some version) }

/-- A block stored on top of the chain. -/
def pushBlock (db : BlockchainDb) (b : BlockHeader) : BlockchainDb := { db with blocks := db.blocks ++ [b] }

/-- `remove_block`: the top block goes; `hf_versions` keeps its record. -/
def popBlock (db : BlockchainDb) : BlockchainDb := { db with blocks := db.blocks.dropLast }

@[simp] theorem setHardForkVersion_blocks (db : BlockchainDb) (height version : ℕ) :
    (db.setHardForkVersion height version).blocks = db.blocks := rfl

@[simp] theorem setHardForkVersion_height (db : BlockchainDb) (height version : ℕ) :
    (db.setHardForkVersion height version).height = db.height := rfl

end BlockchainDb

/-- `cryptonote::HardFork`. -/
@[ext] structure HardFork where
  /-- `window_size`: the number of blocks whose votes count. -/
  windowSize : ℕ
  /-- `default_threshold_percent`. -/
  defaultThresholdPercent : ℕ
  /-- `original_version`: the version of the blocks before the first fork. -/
  originalVersion : ℕ
  /-- `heights`: the table of forks. -/
  heights : List HardFork.Params
  /-- `versions`: the votes of the last blocks, oldest first. -/
  versions : List ℕ
  /-- `last_versions`: the number of votes for each version in `versions`. -/
  lastVersions : ℕ → ℕ
  /-- `current_fork_index`. -/
  currentForkIndex : ℕ
  windowSize_pos : 0 < windowSize
  originalVersion_lt : originalVersion < 2 ^ 8

namespace HardFork

/-- `HardFork::HardFork`, with no fork yet; `none` where it throws. -/
def create (originalVersion windowSize defaultThresholdPercent : ℕ) (h : originalVersion < 2 ^ 8) :
    Option HardFork :=
  if hw : windowSize = 0 then none
  else if 100 < defaultThresholdPercent then none
  else some ⟨windowSize, defaultThresholdPercent, originalVersion, [], [], fun _ => 0, 0,
    Nat.pos_of_ne_zero hw, h⟩

/-- `add_fork(version, height, threshold, time)`: forks come in order of version, height
and time; `none` where it returns `false`. -/
def addFork (version height threshold : ℕ) (time : ℤ) (h : version < 2 ^ 8) (hf : HardFork) :
    Option HardFork :=
  if version = 0 then none
  else if hf.heights.getLast?.any fun last =>
      version ≤ last.version || height ≤ last.height || time ≤ last.time then none
  else if 100 < threshold then none
  else some { hf with heights := hf.heights ++ [⟨version, height, threshold, time, h⟩] }

/-- What `add_fork` accepts, call after call: versions, heights and times strictly
increasing, thresholds at most 100. -/
def ForkTable (heights : List HardFork.Params) : Prop :=
  heights.Pairwise (fun p q => p.version < q.version ∧ p.height < q.height ∧ p.time < q.time) ∧
    ∀ p ∈ heights, p.threshold ≤ 100

/-- `HardFork::DEFAULT_WINDOW_SIZE`: a week of blocks. -/
def defaultWindowSize : ℕ := 10080

/-- `HardFork::DEFAULT_THRESHOLD_PERCENT`. -/
def defaultThresholdPercentValue : ℕ := 80

/-- `mainnet_hard_forks`: version, height, threshold and time of each fork. -/
def mainnetHardForks : List HardFork.Params :=
  [⟨1, 0, 0, 1341378000, by decide⟩, ⟨7, 1, 0, 1528750800, by decide⟩,
    ⟨8, 100, 0, 1528751200, by decide⟩, ⟨9, 7000, 0, 1530320400, by decide⟩,
    ⟨10, 61250, 0, 1543615200, by decide⟩, ⟨11, 131650, 0, 1552424400, by decide⟩,
    ⟨12, 183700, 0, 1558656000, by decide⟩, ⟨13, 248200, 0, 1566511680, by decide⟩,
    ⟨14, 248920, 0, 1566598080, by decide⟩, ⟨15, 303666, 0, 1573257000, by decide⟩,
    ⟨16, 1731480, 0, 1749313836, by decide⟩, ⟨17, 1760751, 0, 1754410575, by decide⟩,
    ⟨18, 1863160, 0, 1768160647, by decide⟩, ⟨19, 1886030, 0, 1771099200, by decide⟩]

/-- The object `Blockchain::init` builds for the main network: `HardFork(*db, 1)`
with the default window and threshold, and the forks of `mainnet_hard_forks`. -/
def mainnetHardFork : HardFork :=
  ⟨defaultWindowSize, defaultThresholdPercentValue, 1, mainnetHardForks, [], fun _ => 0, 0, by decide, by decide⟩

theorem forkTable_mainnetHardForks : ForkTable mainnetHardForks := by
  unfold ForkTable mainnetHardForks
  decide

/-! ### Voting -/

/-- `get_effective_version`: a vote past the last fork counts for the last fork. -/
def getEffectiveVersion (votingVersion : ℕ) (hf : HardFork) : ℕ :=
  match hf.heights.getLast? with
  | none => votingVersion
  | some last => if last.version < votingVersion then last.version else votingVersion

/-- `do_check`: the block is built for the current fork and votes for it or later. -/
def doCheck (blockVersion votingVersion : ℕ) (hf : HardFork) : Bool :=
  match hf.heights[hf.currentForkIndex]? with
  | none => false
  | some current => blockVersion = current.version && current.version ≤ votingVersion

/-- The loop of `get_voted_fork_index`, over the forks from the last down to the
second, with the votes for them and the later ones in the `uint32_t`
`accumulated_votes`. -/
def getVotedForkIndexLoop (hf : HardFork) (height : ℕ) (accumulatedVotes : ℕ) :
    List (HardFork.Params × ℕ) → ℕ
  | [] => hf.currentForkIndex
  | (p, n) :: rest =>
    let accumulatedVotes := (accumulatedVotes + hf.lastVersions p.version) % 2 ^ 32
    let threshold := (hf.windowSize * p.threshold + 99) % 2 ^ 64 / 100 % 2 ^ 32
    if p.height ≤ height ∧ threshold ≤ accumulatedVotes then n
    else getVotedForkIndexLoop hf height accumulatedVotes rest

/-- `get_voted_fork_index`: the latest fork that `height` has reached and that enough
of the window votes for, or else the current one. -/
def getVotedForkIndex (height : ℕ) (hf : HardFork) : ℕ :=
  getVotedForkIndexLoop hf height 0 (hf.heights.zipIdx.drop 1).reverse

/-- `voted > current_fork_index ? voted : current_fork_index`, with the `int` result
of `get_voted_fork_index` stored in a `uint8_t`. -/
def raiseForkIndex (height : ℕ) (hf : HardFork) : HardFork :=
  let voted := hf.getVotedForkIndex height % 2 ^ 8
  { hf with currentForkIndex := if hf.currentForkIndex < voted then voted else hf.currentForkIndex }

/-- The vote `votingVersion` pushed at the back of the window. -/
def pushVote (votingVersion : ℕ) (hf : HardFork) : HardFork :=
  { hf with
    versions := hf.versions ++ [votingVersion]
    lastVersions := Counter.inc (2 ^ 32) hf.lastVersions votingVersion }

/-- The `while (versions.size() >= window_size)` loop of `add`, which pops the oldest
votes. -/
def trimWindow (windowSize : ℕ) : List ℕ → (ℕ → ℕ) → List ℕ × (ℕ → ℕ)
  | [], lastVersions => ([], lastVersions)
  | v :: rest, lastVersions =>
    if windowSize ≤ rest.length + 1 then trimWindow windowSize rest (Counter.dec (2 ^ 32) lastVersions v)
    else (v :: rest, lastVersions)

/-! ### Adding a block -/

/-- What `add` does to the object once the block has passed `do_check`. -/
def addState (votingVersion height : ℕ) (hf : HardFork) : HardFork :=
  let votingVersion := hf.getEffectiveVersion votingVersion
  let window := trimWindow hf.windowSize hf.versions hf.lastVersions
  ({ hf with versions := window.1, lastVersions := window.2 }.pushVote votingVersion).raiseForkIndex
    ((height + 1) % 2 ^ 64)

/-- `add(block_version, voting_version, height)`: a block of the current fork records
that fork at its height and votes; `none` where it returns `false`. -/
def add (blockVersion votingVersion height : ℕ) (db : BlockchainDb) (hf : HardFork) :
    Option (HardFork × BlockchainDb) :=
  match hf.heights[hf.currentForkIndex]? with
  | none => none
  | some current =>
    if blockVersion = current.version ∧ current.version ≤ votingVersion then
      some (hf.addState votingVersion height, db.setHardForkVersion height current.version)
    else none

/-- `add(block, height)`. -/
def addBlock (b : BlockHeader) (height : ℕ) (db : BlockchainDb) (hf : HardFork) :
    Option (HardFork × BlockchainDb) :=
  hf.add (getBlockVersion b) (getBlockVote b) height db

/-! ### Rescans -/

/-- The loops of `rescan_from_block_height` and `reorganize_from_block_height` that push
the effective votes of the blocks at `heights`. -/
def pushVotes (db : BlockchainDb) (hf : HardFork) (heights : List ℕ) : Option HardFork :=
  heights.foldlM (fun hf height =>
    (db.getBlockFromHeight height).map fun b => hf.pushVote (hf.getEffectiveVersion (getBlockVote b))) hf

/-- The `while` loop of `rescan_from_block_height`: the first fork of version `lastv`,
or the last fork. -/
def findForkIndex (lastv : ℕ) : List HardFork.Params → ℕ
  | [] | [_] => 0
  | p :: rest => if p.version = lastv then 0 else findForkIndex lastv rest + 1

/-- `rescan_from_block_height`: the window rebuilt from the votes of the blocks from
`height` to the top, and the fork of the top block. -/
def rescanFromBlockHeight (height : ℕ) (db : BlockchainDb) (hf : HardFork) : Option (Bool × HardFork) :=
  if db.height ≤ height then some (false, hf)
  else do
    let hf ← pushVotes db { hf with versions := [], lastVersions := fun _ => 0 }
      (List.range' height (db.height - height))
    let lastv ← db.getHardForkVersion (db.height - 1)
    let hf := { hf with currentForkIndex := findForkIndex lastv hf.heights }
    pure (true, hf.raiseForkIndex db.height)

/-- `rescan_from_chain_height`. -/
def rescanFromChainHeight (height : ℕ) (db : BlockchainDb) (hf : HardFork) : Option (Bool × HardFork) :=
  if height = 0 then some (false, hf) else hf.rescanFromBlockHeight (height - 1) db

/-- The placeholder fork that `init` adds to an empty table. -/
def originalFork (hf : HardFork) : HardFork.Params := ⟨hf.originalVersion, 0, 0, 0, hf.originalVersion_lt⟩

/-- `init`: the window restored from the last `window_size` blocks of the database. -/
def init (db : BlockchainDb) (hf : HardFork) : Option HardFork :=
  let heights := if hf.heights = [] then [hf.originalFork] else hf.heights
  let hf := { hf with heights, versions := [], lastVersions := fun _ => 0, currentForkIndex := 0 }
  let height := if hf.windowSize < db.height then db.height - (hf.windowSize - 1) else 1
  (hf.rescanFromChainHeight height db).map Prod.snd

/-! ### Reorganisations -/

/-- The `while (current_fork_index > 0 && heights[current_fork_index].version >
start_version)` loop of `reorganize_from_block_height`. -/
def walkDownForkIndex (heights : List HardFork.Params) (startVersion : ℕ) : ℕ → Option ℕ
  | 0 => some 0
  | i + 1 =>
    match heights[i + 1]? with
    | none => none
    | some p => if startVersion < p.version then walkDownForkIndex heights startVersion i else some (i + 1)

/-- The last loop of `reorganize_from_block_height`: the blocks past the kept one
added again, each `add` whose result is ignored. -/
def addBlocksFrom (heights : List ℕ) (st : HardFork × BlockchainDb) : Option (HardFork × BlockchainDb) :=
  heights.foldlM (fun st height =>
    (st.2.getBlockFromHeight height).map fun b => (st.1.addBlock b height st.2).getD st) st

/-- `reorganize_from_block_height`: the window rebuilt from the `window_size` blocks
up to the kept block `height`, the fork index walked back to the fork recorded there
and voted again, then the blocks above added again. -/
def reorganizeFromBlockHeight (height : ℕ) (db : BlockchainDb) (hf : HardFork) :
    Option (Bool × HardFork × BlockchainDb) :=
  if db.height ≤ height then some (false, hf, db)
  else do
    let hf := { hf with versions := [], lastVersions := fun _ => 0 }
    let rescanHeight := if hf.windowSize - 1 ≤ height then height - (hf.windowSize - 1) else 0
    let startVersion ← (if height = 0 then some hf.originalVersion else db.getHardForkVersion height)
    let currentForkIndex ← walkDownForkIndex hf.heights startVersion hf.currentForkIndex
    let hf ← pushVotes db { hf with currentForkIndex } (List.range' rescanHeight (height + 1 - rescanHeight))
    let hf := hf.raiseForkIndex ((height + 1) % 2 ^ 64)
    let (hf, db) ← addBlocksFrom (List.range' (height + 1) (db.height - (height + 1))) (hf, db)
    pure (true, hf, db)

/-! ### Popping blocks -/

/-- The heights of the loop of `on_block_popped`, from `old_chain_height - 1` down to
`new_chain_height`, with `old_chain_height` a `uint64_t`. -/
def onBlockPoppedHeights (newChainHeight nblocks : ℕ) : List ℕ :=
  (List.range' newChainHeight ((newChainHeight + nblocks + 2 ^ 64 - 1) % 2 ^ 64 + 1 - newChainHeight)).reverse

/-- One pass of the loop of `on_block_popped`: the newest vote out at the back, the
version recorded at `height` in at the front. -/
def popVote (db : BlockchainDb) (hf : HardFork) (height : ℕ) : Option HardFork := do
  let newest ← hf.versions.getLast?
  let lastVersions := Counter.dec (2 ^ 32) hf.lastVersions newest
  let version ← db.getHardForkVersion height
  pure { hf with
    versions := version :: hf.versions.dropLast
    lastVersions := Counter.inc (2 ^ 32) lastVersions version }

/-- The last loop of `on_block_popped`: the latest fork whose height the chain has
reached, looked for down from `i` to 1, or else the first. -/
def forkIndexForHeight (heights : List HardFork.Params) (height : ℕ) : ℕ → Option ℕ
  | 0 => some 0
  | i + 1 =>
    match heights[i + 1]? with
    | none => none
    | some p => if p.height ≤ height then some (i + 1) else forkIndexForHeight heights height i

/-- `on_block_popped(nblocks)`, called once the database has lost its top `nblocks`
blocks. With no block left the loop over heights never ends (`height >= 0` holds of
every `uint64_t`). -/
def onBlockPopped (nblocks : ℕ) (db : BlockchainDb) (hf : HardFork) : Option HardFork :=
  if nblocks = 0 ∨ db.height = 0 ∨ hf.heights = [] then none
  else do
    let hf ← (onBlockPoppedHeights db.height nblocks).foldlM (popVote db) hf
    let currentForkIndex ← forkIndexForHeight hf.heights db.height (hf.heights.length - 1)
    pure { hf with currentForkIndex }

/-! ### Reading the version -/

/-- `get_current_version`. -/
def getCurrentVersion (hf : HardFork) : Option ℕ := (hf.heights[hf.currentForkIndex]?).map (·.version)

/-- `get(height)`: the version recorded for a block, the current version one past the
top, and `INVALID_HARD_FORK_VERSION_FOR_HEIGHT` above. -/
def get (height : ℕ) (db : BlockchainDb) (hf : HardFork) : Option ℕ :=
  if db.height < height then some 255
  else if height = db.height then hf.getCurrentVersion
  else db.getHardForkVersion height

/-! ### Properties of the steps -/

@[simp] theorem pushVote_versions (v : ℕ) (hf : HardFork) : (hf.pushVote v).versions = hf.versions ++ [v] := rfl

@[simp] theorem pushVote_lastVersions (v : ℕ) (hf : HardFork) :
    (hf.pushVote v).lastVersions = Counter.inc (2 ^ 32) hf.lastVersions v := rfl

@[simp] theorem pushVote_heights (v : ℕ) (hf : HardFork) : (hf.pushVote v).heights = hf.heights := rfl

@[simp] theorem pushVote_windowSize (v : ℕ) (hf : HardFork) : (hf.pushVote v).windowSize = hf.windowSize := rfl

@[simp] theorem pushVote_currentForkIndex (v : ℕ) (hf : HardFork) :
    (hf.pushVote v).currentForkIndex = hf.currentForkIndex := rfl

@[simp] theorem raiseForkIndex_versions (height : ℕ) (hf : HardFork) :
    (hf.raiseForkIndex height).versions = hf.versions := rfl

@[simp] theorem raiseForkIndex_lastVersions (height : ℕ) (hf : HardFork) :
    (hf.raiseForkIndex height).lastVersions = hf.lastVersions := rfl

@[simp] theorem raiseForkIndex_heights (height : ℕ) (hf : HardFork) :
    (hf.raiseForkIndex height).heights = hf.heights := rfl

@[simp] theorem raiseForkIndex_windowSize (height : ℕ) (hf : HardFork) :
    (hf.raiseForkIndex height).windowSize = hf.windowSize := rfl

theorem addState_versions (votingVersion height : ℕ) (hf : HardFork) :
    (hf.addState votingVersion height).versions =
      (trimWindow hf.windowSize hf.versions hf.lastVersions).1 ++ [hf.getEffectiveVersion votingVersion] := rfl

theorem addState_lastVersions (votingVersion height : ℕ) (hf : HardFork) :
    (hf.addState votingVersion height).lastVersions =
      Counter.inc (2 ^ 32) (trimWindow hf.windowSize hf.versions hf.lastVersions).2
        (hf.getEffectiveVersion votingVersion) := rfl

@[simp] theorem addState_heights (votingVersion height : ℕ) (hf : HardFork) :
    (hf.addState votingVersion height).heights = hf.heights := rfl

@[simp] theorem addState_windowSize (votingVersion height : ℕ) (hf : HardFork) :
    (hf.addState votingVersion height).windowSize = hf.windowSize := rfl

/-- The popping loop keeps the newest votes, one fewer than the window holds. -/
theorem trimWindow_fst (windowSize : ℕ) (l : List ℕ) (c : ℕ → ℕ) :
    (trimWindow windowSize l c).1 = l.drop (l.length + 1 - windowSize) := by
  induction l generalizing c with
  | nil => simp [trimWindow]
  | cons v rest ih =>
    rw [trimWindow]
    split_ifs with h
    · rw [ih, List.length_cons, show rest.length + 1 + 1 - windowSize = rest.length + 1 - windowSize + 1 by omega,
        List.drop_succ_cons]
    · rw [List.length_cons, show rest.length + 1 + 1 - windowSize = 0 by omega, List.drop_zero]

/-- The popping loop counts down the votes it pops. -/
theorem trimWindow_counts (windowSize : ℕ) {l : List ℕ} {c : ℕ → ℕ} (h : Counter.Counts (2 ^ 32) c l) :
    Counter.Counts (2 ^ 32) (trimWindow windowSize l c).2 (trimWindow windowSize l c).1 := by
  induction l generalizing c with
  | nil => exact h
  | cons v rest ih =>
    rw [trimWindow]
    split_ifs
    · exact ih (h.tail (by norm_num))
    · exact h

theorem getEffectiveVersion_le {votingVersion : ℕ} {hf : HardFork} {last : HardFork.Params}
    (h : hf.heights.getLast? = some last) : hf.getEffectiveVersion votingVersion ≤ last.version := by
  unfold getEffectiveVersion
  rw [h]
  dsimp only
  split_ifs with hlt <;> omega

/-- Pushing the votes of the blocks `s`, ..., `s + n - 1`, all in the database. -/
theorem pushVotes_range' {db : BlockchainDb} {s n : ℕ} (hsn : s + n ≤ db.height) (hf : HardFork) :
    ∃ hf', pushVotes db hf (List.range' s n) = some hf' ∧
      hf'.versions = hf.versions ++ ((db.blocks.drop s).take n).map (fun b => hf.getEffectiveVersion (getBlockVote b)) ∧
      (Counter.Counts (2 ^ 32) hf.lastVersions hf.versions → Counter.Counts (2 ^ 32) hf'.lastVersions hf'.versions) ∧
      hf' = { hf with versions := hf'.versions, lastVersions := hf'.lastVersions } := by
  induction n generalizing s hf with
  | zero => exact ⟨hf, rfl, by simp, id, rfl⟩
  | succ n ih =>
    have hs : s < db.blocks.length := by unfold BlockchainDb.height at hsn; omega
    have hblock : db.getBlockFromHeight s = some db.blocks[s] := List.getElem?_eq_getElem hs
    obtain ⟨hf', hpush, hversions, hcounts, hrest⟩ := ih (s := s + 1) (by omega) (hf.pushVote
      (hf.getEffectiveVersion (getBlockVote db.blocks[s])))
    refine ⟨hf', ?_, ?_, fun h => hcounts (h.concat _), ?_⟩
    · rw [List.range'_succ, pushVotes, List.foldlM_cons, hblock]
      exact hpush
    · rw [hversions, pushVote_versions, List.drop_eq_getElem_cons hs, List.take_succ_cons, List.map_cons,
        List.append_assoc, List.singleton_append]
      rfl
    · rw [hrest]
      rfl

theorem add_eq_some_iff {blockVersion votingVersion height : ℕ} {db : BlockchainDb} {hf hf' : HardFork}
    {db' : BlockchainDb} :
    hf.add blockVersion votingVersion height db = some (hf', db') ↔
      ∃ current, hf.heights[hf.currentForkIndex]? = some current ∧ blockVersion = current.version ∧
        current.version ≤ votingVersion ∧ hf' = hf.addState votingVersion height ∧
        db' = db.setHardForkVersion height current.version := by
  unfold add
  constructor
  · intro h
    split at h
    · cases h
    · rename_i current hcurrent
      split_ifs at h with hcheck
      obtain ⟨rfl, rfl⟩ := Prod.mk.injEq _ _ _ _ ▸ Option.some.inj h
      exact ⟨current, hcurrent, hcheck.1, hcheck.2, rfl, rfl⟩
  · rintro ⟨current, hcurrent, hversion, hvote, rfl, rfl⟩
    rw [hcurrent]
    simp [hversion, hvote]

/-- The table `init` leaves, with the placeholder fork in an empty one, is one that
`add_fork` could have built. -/
theorem ForkTable.init {hf : HardFork} (h : ForkTable hf.heights) :
    ForkTable (if hf.heights = [] then [hf.originalFork] else hf.heights) := by
  split_ifs
  · exact ⟨List.pairwise_singleton _ _, by simp [originalFork]⟩
  · exact h

/-- The voted index is an index of the loop's list, or the current index. -/
theorem getVotedForkIndexLoop_lt {hf : HardFork} {height bound : ℕ} (hcurrent : hf.currentForkIndex < bound) :
    ∀ (l : List (HardFork.Params × ℕ)) (accumulatedVotes : ℕ), (∀ x ∈ l, x.2 < bound) →
      hf.getVotedForkIndexLoop height accumulatedVotes l < bound
  | [], _, _ => hcurrent
  | (p, n) :: rest, accumulatedVotes, hl => by
    unfold getVotedForkIndexLoop
    dsimp only
    split_ifs
    · exact hl (p, n) List.mem_cons_self
    · exact getVotedForkIndexLoop_lt hcurrent rest _ fun x hx => hl x (List.mem_cons_of_mem _ hx)

/-- A current index inside the table stays inside after a vote. -/
theorem raiseForkIndex_lt (height : ℕ) {hf : HardFork} (h : hf.currentForkIndex < hf.heights.length) :
    (hf.raiseForkIndex height).currentForkIndex < hf.heights.length := by
  have hvoted : hf.getVotedForkIndex height < hf.heights.length := by
    unfold getVotedForkIndex
    refine getVotedForkIndexLoop_lt h _ _ fun x hx => ?_
    exact (List.mem_zipIdx' (List.mem_of_mem_drop (List.mem_reverse.mp hx))).1
  unfold raiseForkIndex
  dsimp only
  split_ifs <;> omega

theorem raiseForkIndex_currentForkIndex_le (height : ℕ) (hf : HardFork) :
    hf.currentForkIndex ≤ (hf.raiseForkIndex height).currentForkIndex := by
  unfold raiseForkIndex
  dsimp only
  split_ifs with h <;> omega

theorem addState_currentForkIndex_le (votingVersion height : ℕ) (hf : HardFork) :
    hf.currentForkIndex ≤ (hf.addState votingVersion height).currentForkIndex := by
  unfold addState
  dsimp only
  refine le_trans ?_ (raiseForkIndex_currentForkIndex_le _ _)
  exact le_rfl

/-- `add` never lowers the current fork: its vote only raises it. -/
theorem add_currentForkIndex_le {blockVersion votingVersion height : ℕ} {db db' : BlockchainDb}
    {hf hf' : HardFork} (h : hf.add blockVersion votingVersion height db = some (hf', db')) :
    hf.currentForkIndex ≤ hf'.currentForkIndex := by
  obtain ⟨_, _, _, _, rfl, _⟩ := add_eq_some_iff.mp h
  exact addState_currentForkIndex_le _ _ _

end HardFork

end Arqma.Cryptonote
