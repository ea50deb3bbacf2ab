import Arqma.Cryptonote.HardFork

/-!
# Reorganisation agrees with replay

`reorganize_from_block_height(height)` throws the window away, walks the fork index
back to the fork recorded at `height`, rebuilds the window from the blocks up to
`height`, votes again, and adds the blocks above one by one. On a chain whose blocks
were all added by `add` from a fresh `init`, this module proves that it gives back the
object and the database exactly as the adds left them.

## The argument

The adds from a fresh object are a function of the height: after the blocks before
`j`, the window holds the effective votes of the last `min j window_size` of them,
counted, and the fork index `replayForkIndex j` that the votes have raised
(`addChain_replay`). The recorded versions are those of the fork index at each height.
The fork indexes never go down, and the versions of the table strictly increase, so the
walk from the last index down to the recorded version stops at the index the adds had
there (`walkDownForkIndex_eq`); from there the rebuilt window and the vote are those
of the adds, and so is every block added again.

## What is proved

* `reorganizeFromBlockHeight_agrees_with_replay`: for every table that `add_fork`
  accepts and an original version below every fork after the first, every chain whose
  blocks were all added from a fresh `init`, and every kept height below the top,
  `reorganize_from_block_height` returns `true` and leaves the object and the database
  as they were.

The bound on the original version is what the constructor documents of it (`hardfork.h`:
the block version for blocks 0 through to the first fork), and the object the program builds
(`HardFork(*db, 1)` in `blockchain.cpp`) has the original version 1, below every fork after
the first.
-/

namespace Arqma.Cryptonote

namespace HardFork

/-- Storing the chain `blocks` on top of the database block after block and calling
`add(block, height)` for each, as `BlockchainDB::add_block` does; `none` as soon as an
`add` returns `false`. -/
def addChain : List BlockHeader → HardFork × BlockchainDb → Option (HardFork × BlockchainDb)
  | [], st => some st
  | b :: rest, (hf, db) => do
    let st ← hf.addBlock b db.height (db.pushBlock b)
    addChain rest st

/-! ### The replayed states -/

section Replay

variable (hf : HardFork) (blocks : List BlockHeader)

/-- The votes in the window once the blocks before `j` are added. -/
def windowVotes (j : ℕ) : List ℕ :=
  ((blocks.take j).drop (j - hf.windowSize)).map fun b => hf.getEffectiveVersion (getBlockVote b)

/-- The object once the blocks before `j` are added, with the fork index `i`. -/
def replayState (j i : ℕ) : HardFork :=
  { hf with
    versions := windowVotes hf blocks j
    lastVersions := fun v => (windowVotes hf blocks j).count v % 2 ^ 32
    currentForkIndex := i }

/-- The fork index once the blocks before `j` are added. -/
def replayForkIndex : ℕ → ℕ
  | 0 => hf.currentForkIndex
  | j + 1 => ((replayState hf blocks (j + 1) (replayForkIndex j)).raiseForkIndex ((j + 1) % 2 ^ 64)).currentForkIndex

/-- The database once the blocks before `j` are added. -/
def replayDb (j : ℕ) : BlockchainDb :=
  ⟨blocks.take j, fun h => if h < j then (hf.heights[replayForkIndex hf blocks h]?).map (·.version) else none⟩

/-- Block `j` passes `do_check` at the fork index the blocks before it leave: it is
built for the fork `current` there and votes for it or a later one. -/
def Accepted (j : ℕ) : Prop :=
  ∃ b current, blocks[j]? = some b ∧ hf.heights[replayForkIndex hf blocks j]? = some current ∧
    getBlockVersion b = current.version ∧ current.version ≤ getBlockVote b

end Replay

variable {hf : HardFork} {blocks : List BlockHeader}

@[simp] theorem replayState_heights (j i : ℕ) : (replayState hf blocks j i).heights = hf.heights := rfl

@[simp] theorem replayState_windowSize (j i : ℕ) : (replayState hf blocks j i).windowSize = hf.windowSize := rfl

/-- The window after one more block: the oldest vote out once the window is full,
the block's vote in. -/
theorem windowVotes_succ {j : ℕ} (hj : j < blocks.length) :
    (windowVotes hf blocks j).drop ((windowVotes hf blocks j).length + 1 - hf.windowSize) ++
        [hf.getEffectiveVersion (getBlockVote blocks[j])] = windowVotes hf blocks (j + 1) := by
  have hlen : (windowVotes hf blocks j).length = j - (j - hf.windowSize) := by
    simp only [windowVotes, List.length_map, List.length_drop, List.length_take]
    rw [min_eq_left hj.le]
  have hdrop : j - hf.windowSize + ((windowVotes hf blocks j).length + 1 - hf.windowSize) =
      j + 1 - hf.windowSize := by
    rw [hlen]
    omega
  have htake : blocks.take (j + 1) = blocks.take j ++ [blocks[j]] := by
    rw [List.take_add_one, List.getElem?_eq_getElem hj]
    rfl
  unfold windowVotes at hlen hdrop ⊢
  rw [← List.map_drop, List.drop_drop, hdrop, htake,
    List.drop_append_of_le_length (by have := hf.windowSize_pos; rw [List.length_take, min_eq_left hj.le]; omega),
    List.map_append,
    List.map_singleton]

/-- The object after the block `j` is added, before its vote raises the fork index. -/
theorem addState_replayState {j : ℕ} (hj : j < blocks.length) (i : ℕ) :
    (replayState hf blocks j i).addState (getBlockVote blocks[j]) j =
      (replayState hf blocks (j + 1) i).raiseForkIndex ((j + 1) % 2 ^ 64) := by
  have hcounts : Counter.Counts (2 ^ 32) (fun v => (windowVotes hf blocks j).count v % 2 ^ 32)
      (windowVotes hf blocks j) := fun _ => rfl
  have hv : (trimWindow hf.windowSize (windowVotes hf blocks j)
      fun v => (windowVotes hf blocks j).count v % 2 ^ 32).1 ++ [hf.getEffectiveVersion (getBlockVote blocks[j])] =
        windowVotes hf blocks (j + 1) := by
    rw [trimWindow_fst]
    exact windowVotes_succ hj
  have hl : Counter.inc (2 ^ 32) (trimWindow hf.windowSize (windowVotes hf blocks j)
      fun v => (windowVotes hf blocks j).count v % 2 ^ 32).2 (hf.getEffectiveVersion (getBlockVote blocks[j])) =
        fun v => (windowVotes hf blocks (j + 1)).count v % 2 ^ 32 := by
    have hnext := (trimWindow_counts hf.windowSize hcounts).concat (hf.getEffectiveVersion (getBlockVote blocks[j]))
    rw [hv] at hnext
    exact hnext.unique fun _ => rfl
  unfold addState
  dsimp only
  congr 1
  ext1
  · rfl
  · rfl
  · rfl
  · rfl
  · exact hv
  · exact hl
  · rfl

/-- The vote of block `j` raises the index the blocks before it left to the next one. -/
theorem raiseForkIndex_replayState (j : ℕ) :
    (replayState hf blocks (j + 1) (replayForkIndex hf blocks j)).raiseForkIndex ((j + 1) % 2 ^ 64) =
      replayState hf blocks (j + 1) (replayForkIndex hf blocks (j + 1)) := rfl

/-- `add(b_j, j)` at the state the blocks before `j` leave: it succeeds exactly when
the block passes the check, and then leaves the state of one more block. -/
theorem addBlock_replayState_eq_some {j : ℕ} (hj : j < blocks.length) {db db' : BlockchainDb}
    {hf' : HardFork} :
    (replayState hf blocks j (replayForkIndex hf blocks j)).addBlock blocks[j] j db = some (hf', db') ↔
      ∃ current, hf.heights[replayForkIndex hf blocks j]? = some current ∧
        getBlockVersion blocks[j] = current.version ∧ current.version ≤ getBlockVote blocks[j] ∧
        hf' = replayState hf blocks (j + 1) (replayForkIndex hf blocks (j + 1)) ∧
        db' = db.setHardForkVersion j current.version := by
  unfold addBlock
  rw [add_eq_some_iff, addState_replayState hj, raiseForkIndex_replayState]
  rfl

/-- The block `j` stored on top and its fork recorded: the database of one more block. -/
theorem replayDb_succ {j : ℕ} (hj : j < blocks.length) {current : HardFork.Params}
    (hcurrent : hf.heights[replayForkIndex hf blocks j]? = some current) :
    ((replayDb hf blocks j).pushBlock blocks[j]).setHardForkVersion j current.version = replayDb hf blocks (j + 1) := by
  unfold replayDb BlockchainDb.pushBlock BlockchainDb.setHardForkVersion
  congr 1
  · rw [List.take_add_one, List.getElem?_eq_getElem hj]
    rfl
  · funext h
    by_cases hh : h = j
    · subst hh
      simp [hcurrent]
    · have hlt : h < j ↔ h < j + 1 := by omega
      rw [Function.update_of_ne hh]
      simp only [hlt]

/-- Recording at a stored height the fork the adds recorded there changes nothing. -/
theorem setHardForkVersion_replayDb {j k : ℕ} (hj : j < k) {current : HardFork.Params}
    (hcurrent : hf.heights[replayForkIndex hf blocks j]? = some current) :
    (replayDb hf blocks k).setHardForkVersion j current.version = replayDb hf blocks k := by
  have hrecord : (replayDb hf blocks k).hfVersions j = some current.version := by
    simp [replayDb, hj, hcurrent]
  unfold BlockchainDb.setHardForkVersion
  rw [← hrecord, Function.update_eq_self]

@[simp] theorem replayDb_height (j : ℕ) : (replayDb hf blocks j).height = min j blocks.length := by
  simp [replayDb, BlockchainDb.height]

/-- The adds from the state the blocks before `j` leave: every later block is accepted,
and they leave the state of the whole chain. -/
theorem addChain_replay {j : ℕ} (hj : j ≤ blocks.length) {st : HardFork × BlockchainDb}
    (h : addChain (blocks.drop j) (replayState hf blocks j (replayForkIndex hf blocks j), replayDb hf blocks j) =
      some st) :
    (∀ i, j ≤ i → i < blocks.length → Accepted hf blocks i) ∧
      st = (replayState hf blocks blocks.length (replayForkIndex hf blocks blocks.length),
        replayDb hf blocks blocks.length) := by
  -- induction on the number of blocks still to add
  induction hn : blocks.length - j generalizing j with
  | zero =>
    obtain rfl : j = blocks.length := by omega
    rw [List.drop_length, addChain] at h
    exact ⟨fun i hi hi' => absurd hi' (by omega), (Option.some.inj h).symm⟩
  | succ n ih =>
    have hjlt : j < blocks.length := by omega
    rw [List.drop_eq_getElem_cons hjlt, addChain] at h
    obtain ⟨⟨hf₁, db₁⟩, hadd, hrest⟩ := Option.bind_eq_some_iff.mp h
    rw [replayDb_height, min_eq_left hj] at hadd
    obtain ⟨current, hcurrent, hversion, hvote, rfl, rfl⟩ := (addBlock_replayState_eq_some hjlt).mp hadd
    rw [replayDb_succ hjlt hcurrent] at hrest
    obtain ⟨hacc, hst⟩ := ih (by omega) hrest (by omega)
    refine ⟨fun i hi hi' => ?_, hst⟩
    rcases Nat.lt_or_eq_of_le hi with hlt | rfl
    · exact hacc i hlt hi'
    · exact ⟨blocks[j], current, List.getElem?_eq_getElem hjlt, hcurrent, hversion, hvote⟩

/-! ### The fork indexes -/

theorem replayForkIndex_monotone : Monotone (replayForkIndex hf blocks) :=
  monotone_nat_of_le_succ fun j => raiseForkIndex_currentForkIndex_le ((j + 1) % 2 ^ 64)
    (replayState hf blocks (j + 1) (replayForkIndex hf blocks j))

theorem replayForkIndex_lt (h : hf.currentForkIndex < hf.heights.length) (j : ℕ) :
    replayForkIndex hf blocks j < hf.heights.length := by
  induction j with
  | zero => exact h
  | succ j ih => exact raiseForkIndex_lt _ ih

/-- The walk down from `n` stops at `i` when the forks above `i` up to `n` are all later
than the start version and the one at `i` is not, or `i` is the first. -/
theorem walkDownForkIndex_eq {heights : List HardFork.Params} {startVersion i : ℕ}
    (hstop : i = 0 ∨ ∃ p, heights[i]? = some p ∧ p.version ≤ startVersion) :
    ∀ n, n < heights.length → i ≤ n →
      (∀ m p, i < m → m ≤ n → heights[m]? = some p → startVersion < p.version) →
      walkDownForkIndex heights startVersion n = some i
  | 0, _, hi, _ => by
    rw [Nat.le_zero.mp hi]
    rfl
  | n + 1, hn, hi, hpass => by
    have hp : heights[n + 1]? = some heights[n + 1] := List.getElem?_eq_getElem hn
    rw [walkDownForkIndex, hp]
    dsimp only
    rcases Nat.lt_or_eq_of_le hi with hlt | rfl
    · -- the fork at `n + 1` is later than the start version: one step down
      rw [if_pos (hpass _ _ hlt le_rfl hp)]
      exact walkDownForkIndex_eq hstop n (by omega) (by omega) fun m p him hmn => hpass m p him (by omega)
    · -- the walk has reached `i`, whose fork is not later
      obtain ⟨p, hp', hle⟩ := hstop.resolve_left (Nat.succ_ne_zero n)
      rw [hp, Option.some.injEq] at hp'
      subst hp'
      rw [if_neg (by omega)]

/-- In a table that `add_fork` accepts, a later index has a later version. -/
theorem ForkTable.version_lt {heights : List HardFork.Params} (htable : ForkTable heights) {i m : ℕ}
    {p q : HardFork.Params} (him : i < m) (hp : heights[i]? = some p) (hq : heights[m]? = some q) :
    p.version < q.version := by
  obtain ⟨hi, rfl⟩ := List.getElem?_eq_some_iff.mp hp
  obtain ⟨hm, rfl⟩ := List.getElem?_eq_some_iff.mp hq
  exact (List.pairwise_iff_getElem.mp htable.1 i m hi hm him).1

/-- The walk of the reorganisation lands on the fork index the adds had at `height`: the
fork recorded there, or the first one at height zero. -/
theorem walkDownForkIndex_replay (htable : ForkTable hf.heights)
    (horiginal : ∀ m p, 0 < m → hf.heights[m]? = some p → hf.originalVersion < p.version)
    (hzero : hf.currentForkIndex = 0) {height : ℕ} (hheight : height < blocks.length)
    (hacc : Accepted hf blocks height) :
    ∃ startVersion, (if height = 0 then some hf.originalVersion
        else (replayDb hf blocks blocks.length).getHardForkVersion height) = some startVersion ∧
      walkDownForkIndex hf.heights startVersion (replayForkIndex hf blocks blocks.length) =
        some (replayForkIndex hf blocks height) := by
  obtain ⟨b, current, -, hcurrent, -, -⟩ := hacc
  have hlen : replayForkIndex hf blocks blocks.length < hf.heights.length := by
    refine replayForkIndex_lt ?_ blocks.length
    rw [hzero]
    exact Nat.lt_of_le_of_lt (Nat.zero_le _) (List.getElem?_eq_some_iff.mp hcurrent).1
  have hle : replayForkIndex hf blocks height ≤ replayForkIndex hf blocks blocks.length :=
    replayForkIndex_monotone hheight.le
  by_cases h0 : height = 0
  · -- the original version: every fork after the first is later
    subst h0
    refine ⟨hf.originalVersion, if_pos rfl, walkDownForkIndex_eq (.inl hzero) _ hlen hle ?_⟩
    intro m p hm _ hp
    change hf.currentForkIndex < m at hm
    exact horiginal m p (by rw [hzero] at hm; exact hm) hp
  · -- the recorded version: the forks above the recorded one are later
    refine ⟨current.version, ?_, walkDownForkIndex_eq (.inr ⟨current, hcurrent, le_rfl⟩) _ hlen hle ?_⟩
    · simp [h0, replayDb, BlockchainDb.getHardForkVersion, hheight, hcurrent]
    · intro m p hm _ hp
      exact htable.version_lt hm hcurrent hp

/-- The votes that the reorganisation pushes again, those of the blocks from
`height + 1 - window_size` to `height`, are the window the adds left after block `height`. -/
theorem pushVotes_replayDb {height : ℕ} (hheight : height < blocks.length) (i₀ i : ℕ) :
    pushVotes (replayDb hf blocks blocks.length)
        { replayState hf blocks blocks.length i₀ with
          versions := [], lastVersions := fun _ => 0, currentForkIndex := i }
        (List.range' (height + 1 - hf.windowSize) (height + 1 - (height + 1 - hf.windowSize))) =
      some (replayState hf blocks (height + 1) i) := by
  have hsn : height + 1 - hf.windowSize + (height + 1 - (height + 1 - hf.windowSize)) ≤
      (replayDb hf blocks blocks.length).height := by
    rw [replayDb_height, min_self]
    omega
  obtain ⟨hf', hpush, hversions, hcounts, hrest⟩ := pushVotes_range' hsn
    { replayState hf blocks blocks.length i₀ with
      versions := [], lastVersions := fun _ => 0, currentForkIndex := i }
  have hwindow : hf'.versions = windowVotes hf blocks (height + 1) := by
    rw [hversions]
    -- the start state votes as `hf` does, with an empty window
    change [] ++ (((replayDb hf blocks blocks.length).blocks.drop (height + 1 - hf.windowSize)).take
      (height + 1 - (height + 1 - hf.windowSize))).map (fun b => hf.getEffectiveVersion (getBlockVote b)) = _
    rw [List.nil_append, windowVotes, List.drop_take]
    simp [replayDb]
  have hlast : hf'.lastVersions = fun v => (windowVotes hf blocks (height + 1)).count v % 2 ^ 32 := by
    have hcount := hcounts (Counter.Counts.zero _)
    rw [hwindow] at hcount
    exact hcount.unique fun _ => rfl
  rw [hpush, hrest]
  congr 1
  ext1
  · rfl
  · rfl
  · rfl
  · rfl
  · exact hwindow
  · exact hlast
  · rfl

/-- Adding again the blocks from `j` on, over the database of the whole chain, gives
back the state of the whole chain. -/
theorem addBlocksFrom_replay {j : ℕ} (hj : j ≤ blocks.length)
    (hacc : ∀ i, j ≤ i → i < blocks.length → Accepted hf blocks i) :
    addBlocksFrom (List.range' j (blocks.length - j))
        (replayState hf blocks j (replayForkIndex hf blocks j), replayDb hf blocks blocks.length) =
      some (replayState hf blocks blocks.length (replayForkIndex hf blocks blocks.length),
        replayDb hf blocks blocks.length) := by
  -- induction on the number of blocks still to add, as in `addChain_replay`
  induction hn : blocks.length - j generalizing j with
  | zero =>
    obtain rfl : j = blocks.length := by omega
    rfl
  | succ n ih =>
    have hjlt : j < blocks.length := by omega
    obtain ⟨b, current, hb, hcurrent, hversion, hvote⟩ := hacc j le_rfl hjlt
    obtain rfl : blocks[j] = b := by
      rw [List.getElem?_eq_getElem hjlt, Option.some.injEq] at hb
      exact hb
    have hblock : (replayDb hf blocks blocks.length).getBlockFromHeight j = some blocks[j] := by
      simp [replayDb, BlockchainDb.getBlockFromHeight, hjlt]
    have hadd : (replayState hf blocks j (replayForkIndex hf blocks j)).addBlock blocks[j] j
        (replayDb hf blocks blocks.length) =
          some (replayState hf blocks (j + 1) (replayForkIndex hf blocks (j + 1)),
            (replayDb hf blocks blocks.length).setHardForkVersion j current.version) :=
      (addBlock_replayState_eq_some hjlt).mpr ⟨current, hcurrent, hversion, hvote, rfl, rfl⟩
    rw [setHardForkVersion_replayDb hjlt hcurrent] at hadd
    rw [List.range'_succ, addBlocksFrom, List.foldlM_cons, hblock, Option.map_some]
    dsimp only
    rw [hadd, Option.getD_some]
    exact ih (by omega) (fun i hi hi' => hacc i (by omega) hi') (by omega)

/-! ### From a fresh `init` -/

/-- `init` over an empty database: the placeholder fork in an empty table, an empty
window and the first fork. -/
theorem init_empty (hf : HardFork) :
    hf.init BlockchainDb.empty =
      some { hf with
        heights := if hf.heights = [] then [hf.originalFork] else hf.heights
        versions := [], lastVersions := fun _ => 0, currentForkIndex := 0 } := rfl

theorem replayState_zero (hversions : hf.versions = []) (hlast : hf.lastVersions = fun _ => 0) :
    replayState hf blocks 0 (replayForkIndex hf blocks 0) = hf := by
  have hempty : windowVotes hf blocks 0 = [] := by simp [windowVotes]
  ext1
  · rfl
  · rfl
  · rfl
  · rfl
  · exact hempty.trans hversions.symm
  · simp [replayState, hempty, hlast]
  · rfl

theorem replayDb_zero : replayDb hf blocks 0 = BlockchainDb.empty := by
  simp [replayDb, BlockchainDb.empty]

/-- Reorganisation agrees with replay. From a fresh `init` over an empty database, with
a table that `add_fork` accepts and an original version below every fork after the
first, let the blocks of a chain all be added. Then for every height below the top,
`reorganize_from_block_height` returns `true` and leaves the object and the database
exactly as the adds left them. -/
theorem reorganizeFromBlockHeight_agrees_with_replay {hf₀ A : HardFork} (htable : ForkTable hf₀.heights)
    (horiginal : ∀ p ∈ hf₀.heights.tail, hf₀.originalVersion < p.version)
    (hinit : hf₀.init BlockchainDb.empty = some A) {blocks : List BlockHeader} {hf : HardFork}
    {db : BlockchainDb} (hchain : addChain blocks (A, BlockchainDb.empty) = some (hf, db)) {height : ℕ}
    (hheight : height < blocks.length) :
    hf.reorganizeFromBlockHeight height db = some (true, hf, db) := by
  rw [init_empty, Option.some.injEq] at hinit
  -- what the fresh object brings: an empty window, the first fork, the table of `init`
  have hzero : A.currentForkIndex = 0 := by rw [← hinit]
  have htableA : ForkTable A.heights := by
    rw [← hinit]
    exact htable.init
  have horiginalA : ∀ m p, 0 < m → A.heights[m]? = some p → A.originalVersion < p.version := by
    rw [← hinit]
    intro m p hm hp
    dsimp only at hp ⊢
    split_ifs at hp with hempty
    · obtain ⟨hlt, -⟩ := List.getElem?_eq_some_iff.mp hp
      simp at hlt
      omega
    · obtain ⟨m, rfl⟩ := Nat.exists_eq_add_of_lt hm
      rw [zero_add, ← List.getElem?_tail] at hp
      exact horiginal p (List.mem_of_getElem? hp)
  have hstart : replayState A blocks 0 (replayForkIndex A blocks 0) = A :=
    replayState_zero (by rw [← hinit]) (by rw [← hinit])
  have hreplay : addChain (blocks.drop 0) (replayState A blocks 0 (replayForkIndex A blocks 0),
      replayDb A blocks 0) = some (hf, db) := by
    rw [List.drop_zero, replayDb_zero, hstart]
    exact hchain
  obtain ⟨hacc, hst⟩ := addChain_replay (Nat.zero_le _) hreplay
  rw [Prod.mk.injEq] at hst
  obtain ⟨rfl, rfl⟩ := hst
  -- the reorganisation, step by step
  unfold reorganizeFromBlockHeight
  rw [replayDb_height, min_self, if_neg (by omega)]
  extract_lets hf₁ rescanHeight
  have hrescan : rescanHeight = height + 1 - A.windowSize := by
    have hpos := A.windowSize_pos
    have hw : hf₁.windowSize = A.windowSize := rfl
    simp only [rescanHeight, hw]
    split_ifs <;> omega
  rw [hrescan]
  obtain ⟨startVersion, hversion, hwalk⟩ :=
    walkDownForkIndex_replay htableA horiginalA hzero hheight (hacc height (Nat.zero_le _) hheight)
  refine Option.bind_eq_some_iff.mpr ⟨startVersion, hversion, ?_⟩
  refine Option.bind_eq_some_iff.mpr ⟨_, hwalk, ?_⟩
  refine Option.bind_eq_some_iff.mpr ⟨_, pushVotes_replayDb hheight (replayForkIndex A blocks blocks.length)
    (replayForkIndex A blocks height), ?_⟩
  refine Option.bind_eq_some_iff.mpr ⟨(replayState A blocks blocks.length (replayForkIndex A blocks blocks.length),
    replayDb A blocks blocks.length), ?_, rfl⟩
  rw [raiseForkIndex_replayState]
  exact addBlocksFrom_replay hheight fun i _ hi => hacc i (Nat.zero_le _) hi

/-- The main network's object after `init` over an empty database, the genesis block
and a block of version 7 at height 1: a reorganisation from the genesis block gives it
back. -/
theorem reorganizeFromBlockHeight_agrees_with_replay_mainnet :
    ∃ A hf db, mainnetHardFork.init BlockchainDb.empty = some A ∧
      addChain [⟨1, 0, by decide, by decide⟩, ⟨7, 7, by decide, by decide⟩] (A, BlockchainDb.empty) =
        some (hf, db) ∧
      hf.reorganizeFromBlockHeight 0 db = some (true, hf, db) :=
  ⟨_, _, _, rfl, rfl, @reorganizeFromBlockHeight_agrees_with_replay mainnetHardFork _ forkTable_mainnetHardForks
    (by decide) rfl [⟨1, 0, by decide, by decide⟩, ⟨7, 7, by decide, by decide⟩] _ _ rfl 0 (by decide)⟩

end HardFork

end Arqma.Cryptonote
